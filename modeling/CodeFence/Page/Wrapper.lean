import CodeFence.Block.ConfigJson
import CodeFence.Markup.Escape
import CodeFence.Text.Split

/-!
# Wrappers

Every rendered block of a page stands inside a wrapper, whose attributes record what the block was
rendered from.  A page can be cut into its wrappers and the text between them, so that blocks can be
rendered again without the document they came from.
-/

namespace CodeFence

/-- What a wrapper records: the language, the configuration as JSON if there is one, and the source
of the block. -/
structure BlockAttributes where
  language : String
  config : Option String := none
  originalCode : String
  deriving DecidableEq

/-- The configuration of a recorded block.  If none can be read, it is that of the bare language;
one that is not valid is repaired. -/
def BlockAttributes.blockConfig (a : BlockAttributes) : BlockConfig :=
  ((a.config.bind BlockConfig.parse?).getD { language := canonicalLanguage a.language }).repaired

namespace Wrapper

/-- The wrapper of a rendered block. -/
def render (config : BlockConfig) (code html : String) : String :=
  "<div class=\"fencelight-block\" data-language=\"" ++ Markup.escape config.language ++
    "\" data-config=\"" ++ Markup.escape config.render ++
    "\" data-original-code=\"" ++ Markup.escape code ++ "\">" ++ html ++ "</div>"

/-- The beginning of every wrapper. -/
def opening : List Char :=
  "<div class=\"fencelight-block\" data-language=\"".toList

/-- What stands between the attributes of the language and the configuration. -/
def beforeConfig : List Char :=
  " data-config=\"".toList

/-- What stands before the attribute of the source. -/
def beforeCode : List Char :=
  " data-original-code=\"".toList

/-- The end of every wrapper. -/
def closing : List Char :=
  "</pre></div>".toList

/-- The value of an attribute that has been opened, and what follows its closing quote. -/
def value? (cs : List Char) : Option (List Char × List Char) :=
  match cs.dropWhile (· ≠ '"') with
  | _ :: rest => some (cs.takeWhile (· ≠ '"'), rest)
  | [] => none

/-- The text that an attribute value stands for. -/
def decode (value : List Char) : String :=
  String.ofList (Markup.unescapeChars value)

/-- The value of the attribute of the configuration, if that is what follows, and the rest. -/
def configValue (cs : List Char) : Option (List Char) × List Char :=
  match (Text.after? beforeConfig cs).bind value? with
  | some (config, rest) => (some config, rest)
  | none => (none, cs)

/-- The attributes of a wrapper that begins here, and what follows its opening tag. -/
def attributes? (cs : List Char) : Option (BlockAttributes × List Char) := do
  let (language, rest) ← (Text.after? opening cs).bind value?
  let (config, rest) := configValue rest
  let (code, rest) ← (Text.after? beforeCode rest).bind value?
  let rest ← Text.after? ['>'] rest
  return (⟨decode language, config.map decode, decode code⟩, rest)

/-- Looks for a wrapper in a text that follows `before`, which is latest character first. -/
def findAfter (before : List Char) : List Char → Option (List Char × BlockAttributes × List Char)
  | [] => none
  | c :: cs =>
    match attributes? (c :: cs) with
    | some (a, rest) => some (before.reverse, a, rest)
    | none => findAfter (c :: before) cs

/-- What stands before the first wrapper of a text, its attributes, and what follows its opening
tag. -/
def find? (cs : List Char) : Option (List Char × BlockAttributes × List Char) :=
  findAfter [] cs

theorem length_of_after? {lead text rest : List Char} (h : Text.after? lead text = some rest) :
    text.length = lead.length + rest.length := by
  rw [Text.after?_eq_some_iff.1 h, List.length_append]

theorem length_lt_of_value? {cs value rest : List Char} (h : value? cs = some (value, rest)) :
    rest.length < cs.length := by
  have hle := (List.dropWhile_sublist (· ≠ '"') (l := cs)).length_le
  unfold value? at h
  split at h
  · next heq =>
    obtain ⟨-, rfl⟩ : _ ∧ _ = rest := by simpa using h
    rw [heq, List.length_cons] at hle
    omega
  · simp at h

theorem length_le_of_configValue (cs : List Char) : (configValue cs).2.length ≤ cs.length := by
  unfold configValue
  split
  · next config rest h =>
    obtain ⟨r, hr, hv⟩ := Option.bind_eq_some_iff.1 h
    have := length_of_after? hr
    have := length_lt_of_value? hv
    simp only
    omega
  · exact Nat.le_refl _

/-- An opening tag takes up at least one character. -/
theorem length_lt_of_attributes? {cs rest : List Char} {a : BlockAttributes}
    (h : attributes? cs = some (a, rest)) : rest.length < cs.length := by
  simp only [attributes?, Option.bind_eq_bind, Option.bind_eq_some_iff, Prod.exists,
    Option.pure_def, Option.some.injEq, Prod.mk.injEq] at h
  obtain ⟨language, r₁, ⟨r₀, h₀, h₁⟩, code, r₃, ⟨r₂, h₂, h₃⟩, r₄, h₄, -, rfl⟩ := h
  have := length_of_after? h₀
  have := length_lt_of_value? h₁
  have := length_le_of_configValue r₁
  have := length_of_after? h₂
  have := length_lt_of_value? h₃
  have := length_of_after? h₄
  omega

theorem length_lt_of_findAfter {before cs b rest : List Char} {a : BlockAttributes}
    (h : findAfter before cs = some (b, a, rest)) : rest.length < cs.length := by
  induction cs generalizing before with
  | nil => simp [findAfter] at h
  | cons c cs ih =>
    rw [findAfter] at h
    split at h
    · next heq =>
      obtain ⟨rfl, rfl, rfl⟩ : _ ∧ _ ∧ _ := by simpa using h
      exact length_lt_of_attributes? heq
    · exact Nat.lt_succ_of_lt (ih h)

theorem length_lt_of_find? {cs b rest : List Char} {a : BlockAttributes}
    (h : find? cs = some (b, a, rest)) : rest.length < cs.length :=
  length_lt_of_findAfter h

/-- The attributes of all wrappers of a text, in order. -/
def all (cs : List Char) : List BlockAttributes :=
  match _h : find? cs with
  | none => []
  | some (_, a, rest) => a :: all rest
termination_by cs.length
decreasing_by exact length_lt_of_find? _h

/-- A part of a page. -/
inductive Piece where
  | text (cs : List Char)
  | block (attributes : BlockAttributes)

/-- A page cut into wrappers and the text around them.  A wrapper holds one `pre` element, so it
goes on to the first place where such an element and a wrapper end together; one that does not end
is text, and so is everything after it. -/
def pieces (cs : List Char) : List Piece :=
  match _h : find? cs with
  | none => [.text cs]
  | some (before, a, rest) =>
    match _hc : Text.cutAround? closing rest with
    | none => [.text cs]
    | some (_, after) => .text before :: .block a :: pieces after
termination_by cs.length
decreasing_by
  have := length_lt_of_find? _h
  have hl := congrArg List.length (Text.cutAround?_eq _hc)
  simp only [List.length_append] at hl
  omega

end Wrapper

/-- What the wrappers of a page record, in order. -/
def blockAttributes (html : String) : List BlockAttributes :=
  Wrapper.all html.toList

end CodeFence
