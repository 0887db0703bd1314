/-!
# Elements of HTML

Which elements may hold which, said as far as a start tag or an end tag can end elements whose own
end tag is left out.  Open elements are given by their names in lower case, innermost first.
-/

namespace CodeFence.Syntax.HtmlGrammar

/-- The elements that never hold anything. -/
def voidNames : List String :=
  ["area", "base", "basefont", "bgsound", "br", "col", "command", "embed", "frame", "hr", "image",
    "img", "input", "isindex", "keygen", "link", "menuitem", "meta", "nextid", "param", "source",
    "track", "wbr"]

/-- The elements that a paragraph cannot hold. -/
def blockNames : List String :=
  ["address", "article", "aside", "blockquote", "details", "div", "dl", "fieldset", "figcaption",
    "figure", "footer", "form", "h1", "h2", "h3", "h4", "h5", "h6", "header", "hr", "main", "nav",
    "ol", "p", "pre", "section"]

/-- The other elements with a meaning of their own. -/
def otherNames : List String :=
  ["a", "abbr", "audio", "b", "bdi", "bdo", "body", "button", "canvas", "caption", "cite", "code",
    "colgroup", "data", "datalist", "dd", "del", "dfn", "dialog", "dt", "em", "head", "hgroup",
    "html", "i", "iframe", "ins", "kbd", "label", "legend", "li", "map", "mark", "math", "menu",
    "meter", "noscript", "object", "optgroup", "option", "output", "picture", "progress", "q", "rb",
    "rp", "rt", "rtc", "ruby", "s", "samp", "script", "select", "slot", "small", "span", "strong",
    "style", "sub", "summary", "sup", "svg", "table", "tbody", "td", "template", "textarea",
    "tfoot", "th", "thead", "time", "title", "tr", "u", "ul", "var", "video"]

/-- Whether an element never holds anything. -/
def isVoid (name : String) : Bool :=
  voidNames.contains name

/-- Whether what an element holds is raw text. -/
def isRaw (name : String) : Bool :=
  name = "script" || name = "style"

/-- Whether a name is one of those with a meaning. -/
def isKnown (name : String) : Bool :=
  isVoid name || blockNames.contains name || otherNames.contains name

/-- Whether two names are of one kind: the same name, or both without a meaning. -/
def sameKind (a b : String) : Bool :=
  a = b || (!isKnown a && !isKnown b)

/-- Whether an element can hold another one. -/
def canContain (parent child : String) : Bool :=
  match parent with
  | "li" => child ≠ "li"
  | "dt" | "dd" => child ≠ "dt" && child ≠ "dd"
  | "p" => !blockNames.contains child
  | "colgroup" => child = "col"
  | "rb" | "rt" | "rp" => child ≠ "rb" && child ≠ "rt" && child ≠ "rp"
  | "optgroup" => child ≠ "optgroup"
  | "tr" => child ≠ "tr"
  | "td" | "th" => child ≠ "td" && child ≠ "th" && child ≠ "tr"
  | _ => true

/-- The elements that are still open where an element begins.  The name may be empty. -/
def impliedByStart (name : String) : List String → List String
  | [] => []
  | parent :: outer =>
    if isVoid parent || (!name.isEmpty && !canContain parent name) then impliedByStart name outer
    else parent :: outer

/-- The elements that are still open where an end tag begins.  If it fits an open element, the ones
inside that are ended. -/
def impliedByEnd (name : String) : List String → List String
  | [] => []
  | parent :: outer =>
    if !name.isEmpty && parent ≠ name && (parent :: outer).any (sameKind name) then
      impliedByEnd name outer
    else parent :: outer

end CodeFence.Syntax.HtmlGrammar
