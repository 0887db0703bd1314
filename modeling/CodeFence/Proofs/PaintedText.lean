import CodeFence.Proofs.LinePieces
import CodeFence.Proofs.TokenPlaces

/-!
# The color of captured text

A capture keeps the scope that serves its name, and a theme is asked for the color of
that scope.  So of the keys of a theme that serve the name, only those count that serve
a scope of the table on the way: a key that is more specific than every scope that
serves the name is never asked for.

* `Serves.of_length_le` — the names that serve a name lie on one line;
* `nameColor?_eq_some_iff` — the two lookups, one after the other, are one over the
  keys that count;
* `nameColor?_eq_colorFor` — all keys count, so the name itself could be looked up;
* `nameColor?_of_mem_scopes` — as for a name that is in the table;
* `painted` — the characters of a line, with the style of each;
* `painted_renderLine` — a character has the color of the token that is seen there;
* `OnlyUnder`, `seenScope_of_onlyUnder` — text that is captured under one name;
* `painted_exact`, `painted_of_mem_scopes` — how it is painted, and that a name of the
  table has the color that the theme has for it;
* `not_painted_of_specific_key` — a key that does not count.
-/

namespace CodeFence.Syntax

/-! ## Two lookups in a row -/

theorem Serves.refl (name : List Char) : Serves name name :=
  Or.inl rfl

theorem Serves.isPrefix {scope name : List Char} (h : Serves scope name) : scope <+: name := by
  rcases h with rfl | hdot
  · exact List.prefix_refl name
  · exact (List.prefix_append scope ['.']).trans hdot

theorem Serves.trans {key scope name : List Char} (hkey : Serves key scope)
    (hscope : Serves scope name) : Serves key name := by
  rcases hkey with rfl | hdot
  · exact hscope
  · exact Or.inr (hdot.trans hscope.isPrefix)

/-- **The names that serve a name** lie on one line: the shorter ones serve the longer
ones. -/
theorem Serves.of_length_le {key scope name : List Char} (hkey : Serves key name)
    (hscope : Serves scope name) (hle : key.length ≤ scope.length) : Serves key scope := by
  rcases Nat.lt_or_eq_of_le hle with hlt | heq
  · rcases hkey with rfl | hdot
    · have hback := hscope.length_le
      omega
    · have hshort : (key ++ ['.']).length ≤ scope.length := by
        rw [List.length_append, List.length_singleton]
        omega
      exact Or.inr (List.prefix_of_prefix_length_le hdot hscope.isPrefix hshort)
  · have hsame := List.prefix_of_prefix_length_le hkey.isPrefix hscope.isPrefix hle
    rw [hsame.eq_of_length heq]
    exact Serves.refl scope

theorem isNearest_congr {p q : String → Prop} {name scope : String}
    (h : ∀ k : String, Serves k.toList name.toList → (p k ↔ q k)) :
    IsNearest p name scope ↔ IsNearest q name scope := by
  unfold IsNearest
  constructor
  · intro hnearest
    obtain ⟨hp, hserves, hlongest⟩ := hnearest
    refine ⟨(h scope hserves).mp hp, hserves, ?_⟩
    intro other hother hothers
    exact hlongest other ((h other hothers).mpr hother) hothers
  · intro hnearest
    obtain ⟨hq, hserves, hlongest⟩ := hnearest
    refine ⟨(h scope hserves).mpr hq, hserves, ?_⟩
    intro other hother hothers
    exact hlongest other ((h other hothers).mp hother) hothers

/-- The color that a theme gives to a capture name, by way of the scope that serves
the name. -/
def nameColor? (theme : Theme) (name : String) : Option Color :=
  (scopeId? name).bind (scopeColor? theme)

/-- A key counts for a name: it serves a scope of the table that serves the name. -/
def Counts (key name : String) : Prop :=
  ∃ scope ∈ scopes, Serves key.toList scope.toList ∧ Serves scope.toList name.toList

/-- The keys that count for a name are those that serve the longest scope of the table
that serves it. -/
theorem counts_iff_of_isNearest {key name scope : String}
    (h : IsNearest (· ∈ scopes) name scope) :
    Counts key name ↔ Serves key.toList scope.toList := by
  obtain ⟨hmem, hserves, hlongest⟩ := h
  constructor
  · intro hcounts
    obtain ⟨other, hother, hkey, hname⟩ := hcounts
    have hle := hlongest other hother hname
    rw [← String.length_toList, ← String.length_toList] at hle
    exact hkey.trans (hname.of_length_le hserves hle)
  · intro hkey
    exact ⟨scope, hmem, hkey, hserves⟩

/-- **Two lookups in a row** are one over the keys that count. -/
theorem nameColor?_eq_some_iff {theme : Theme} {name : String} {color : Color} :
    nameColor? theme name = some color ↔ ∃ key, theme.scopes.lookup key = some color ∧
      IsNearest (fun k => (theme.scopes.lookup k).isSome = true ∧ Counts k name) name key := by
  unfold nameColor?
  cases hid : scopeId? name with
  | none =>
      have hnone := scopeId?_eq_none_iff.mp hid
      constructor
      · intro h
        cases h
      · rintro ⟨key, -, ⟨-, scope, hmem, -, hserves⟩, -⟩
        exact absurd hserves (hnone scope hmem)
  | some id =>
      obtain ⟨scope, hscope, hnearest⟩ := scopeId?_eq_some_iff.mp hid
      rw [Option.bind_some, scopeColor?, hscope, Option.bind_some, colorFor_eq_some_iff]
      simp only [IsNearest, counts_iff_of_isNearest hnearest]
      apply exists_congr
      intro key
      constructor
      · rintro ⟨hcolor, hsome, hkey, hlongest⟩
        refine ⟨hcolor, ⟨hsome, hkey⟩, hkey.trans hnearest.2.1, ?_⟩
        intro other hother _
        exact hlongest other hother.1 hother.2
      · rintro ⟨hcolor, ⟨hsome, hkey⟩, -, hlongest⟩
        refine ⟨hcolor, hsome, hkey, ?_⟩
        intro other hother hserves
        exact hlongest other ⟨hother, hserves⟩ (hserves.trans hnearest.2.1)

/-- **Looking up the name itself** gives the same color if all keys that serve the name
count. -/
theorem nameColor?_eq_colorFor {theme : Theme} {name : String}
    (h : ∀ key : String, (theme.scopes.lookup key).isSome = true →
      Serves key.toList name.toList → Counts key name) :
    nameColor? theme name = theme.colorFor name := by
  apply Option.ext
  intro color
  rw [nameColor?_eq_some_iff, colorFor_eq_some_iff]
  apply exists_congr
  intro key
  rw [isNearest_congr]
  intro k hserves
  constructor
  · intro hboth
    exact hboth.1
  · intro hsome
    exact ⟨hsome, h k hsome hserves⟩

/-- **A name of the table** is served by itself, so all keys that serve it count and its color is
the one that the theme has for it. -/
theorem nameColor?_of_mem_scopes {theme : Theme} {name : String} (h : name ∈ scopes) :
    nameColor? theme name = theme.colorFor name := by
  apply nameColor?_eq_colorFor
  intro key _ hkey
  exact ⟨name, h, hkey, Serves.refl name.toList⟩

end CodeFence.Syntax

namespace CodeFence.Bundled

open Markup

variable {theme : Theme} {chars : List Char} {row column : Nat}

/-! ## The characters of a line -/

/-- The style of text in a color. -/
def colorStyle (color : Color) : String :=
  "color: " ++ color.toCss

/-- The characters of nodes in a row, each with the style of the element around it. -/
def painted : List Node → List (Char × Option String)
  | [] => []
  | .text value :: rest => value.toList.map (fun c => (c, none)) ++ painted rest
  | .element _ attrs children :: rest =>
    (textOfNodes children).toList.map (fun c => (c, attrs.lookup "style")) ++ painted rest

theorem painted_append (front back : List Node) :
    painted (front ++ back) = painted front ++ painted back := by
  induction front with
  | nil => rfl
  | cons n rest ih => cases n <;> simp [painted, ih]

/-- A piece is painted in its color, and leaves the rest as it is. -/
theorem painted_appendPiece (nodes : List Node) (piece : String) (color : Option Color) :
    painted (appendPiece nodes piece color) =
      painted nodes ++ piece.toList.map fun c => (c, color.map colorStyle) := by
  cases color with
  | some color =>
      rw [appendPiece, painted_append]
      simp [painted, textOfNodes, Node.textContent, colorStyle]
  | none =>
      rcases appendText_cases piece nodes with ⟨front, value, rfl, happend⟩ | ⟨-, happend⟩
      · rw [appendPiece, happend, painted_append, painted_append]
        simp [painted]
      · rw [appendPiece, happend, painted_append]
        simp [painted]

/-- The characters of a span, with the style of the span. -/
def paintedSpan (theme : Theme) (chars : List Char) (s : Syntax.Segment) :
    List (Char × Option String) :=
  (s.piece chars).map fun c => (c, (segmentColor theme s).map colorStyle)

theorem painted_pieceNodes (theme : Theme) (chars : List Char) (nodes : List Node)
    (spans : List Syntax.Segment) :
    painted (pieceNodes theme chars nodes spans) =
      painted nodes ++ spans.flatMap (paintedSpan theme chars) := by
  induction spans generalizing nodes with
  | nil => simp [pieceNodes]
  | cons s rest ih =>
      have hrest := ih (appendPiece nodes (String.ofList (s.piece chars)) (segmentColor theme s))
      rw [painted_appendPiece, String.toList_ofList, List.append_assoc] at hrest
      rw [pieceNodes_cons, hrest, List.flatMap_cons, paintedSpan]

/-- In a tiling, a character is painted by the span that has its column. -/
theorem getElem?_paintedSpan {a b : Nat} {spans : List Syntax.Segment} {s : Syntax.Segment}
    (h : Syntax.Tiles a spans b) (hb : b ≤ chars.length) (hs : s ∈ spans) (hhas : s.Has column) :
    (spans.flatMap (paintedSpan theme chars))[column - a]? =
      chars[column]?.map fun c => (c, (segmentColor theme s).map colorStyle) := by
  induction spans generalizing a with
  | nil => cases hs
  | cons t rest ih =>
      have hbounds := h.bounds t List.mem_cons_self
      obtain ⟨rfl, -, hrest⟩ := h
      obtain ⟨hstart, hstop⟩ := hhas
      have hlength : (paintedSpan theme chars t).length = t.stop - t.start := by
        rw [paintedSpan, List.length_map, Syntax.Segment.piece, List.length_take,
          List.length_drop]
        omega
      rw [List.flatMap_cons]
      rcases List.mem_cons.mp hs with rfl | hs
      · have hinside : column - s.start < s.stop - s.start := by omega
        have hcolumn : s.start + (column - s.start) = column := by omega
        rw [List.getElem?_append_left (by omega), paintedSpan, List.getElem?_map,
          Syntax.Segment.piece, List.getElem?_take_of_lt hinside, List.getElem?_drop, hcolumn]
      · have hbehind := hrest.le_start s hs
        have hindex : column - t.start - (t.stop - t.start) = column - t.stop := by omega
        rw [List.getElem?_append_right (by omega), hlength, hindex]
        exact ih hrest hs

/-- **A character of a line** is painted in the color of the scope that is seen at its
column. -/
theorem painted_renderLine (theme : Theme) (tokens : List Syntax.Token) {c : Char}
    (h : chars[column]? = some c) :
    ∃ scope, Syntax.SeenScope tokens column scope ∧
      (painted (renderLine theme tokens chars).children)[column]? =
        some (c, (scope.bind (Syntax.scopeColor? theme)).map colorStyle) := by
  have hlt : column < chars.length := (List.getElem?_eq_some_iff.mp h).1
  have htile := Syntax.segments_tile tokens chars.length
  obtain ⟨s, hs, hhas, -⟩ := htile.exists_has (Nat.zero_le column) hlt
  have hpainted := @getElem?_paintedSpan theme chars column 0 chars.length _ s htile
    (Nat.le_refl _) hs hhas
  refine ⟨s.scope, Syntax.seenScope_of_mem_segments hs hhas, ?_⟩
  rw [children_renderLine, painted_pieceNodes]
  rw [Nat.sub_zero, h] at hpainted
  exact hpainted

/-! ## The rows of a source and the lines of a block -/

theorem dropReturn_isPrefix (row : List Char) : Text.dropReturn row <+: row := by
  unfold Text.dropReturn
  split
  · exact List.dropLast_prefix row
  · exact List.prefix_refl row

/-- A line of a block is a row of its source, without the return at its end. -/
theorem exists_row_of_displayLines {code : List Char}
    (h : (displayLines code)[row]? = some chars) :
    ∃ full, (Text.splitAt '\n' code)[row]? = some full ∧ chars <+: full := by
  by_cases hends : ['\n'] <:+ code
  · obtain ⟨front, rfl⟩ := hends
    rw [displayLines_append_newline, List.getElem?_map] at h
    obtain ⟨full, hfull, rfl⟩ := Option.map_eq_some_iff.mp h
    have hlt := (List.getElem?_eq_some_iff.mp hfull).1
    refine ⟨full, ?_, dropReturn_isPrefix full⟩
    rw [Text.splitAt_append_sep, List.getElem?_append_left hlt, hfull]
  · rw [displayLines_of_no_newline hends, List.getElem?_map] at h
    obtain ⟨full, hfull, rfl⟩ := Option.map_eq_some_iff.mp h
    exact ⟨full, hfull, dropReturn_isPrefix full⟩

theorem has_iff_of_isPrefix {full : List Char} {c : Syntax.Capture} (h : chars <+: full)
    (hcolumn : column < chars.length) : c.Has full row column ↔ c.Has chars row column := by
  obtain ⟨rest, rfl⟩ := h
  have htake : (chars ++ rest).take (column + 1) = chars.take (column + 1) :=
    List.take_append_of_le_length hcolumn
  unfold Syntax.Capture.Has Syntax.placeOf
  rw [htake]

/-! ## Text that is captured under one name -/

/-- A character of a row is captured, and under no other name than the given one. -/
def OnlyUnder (captures : List Syntax.Capture) (chars : List Char) (row column : Nat)
    (name : String) : Prop :=
  (∃ c ∈ captures, c.Has chars row column) ∧
    ∀ c ∈ captures, c.Has chars row column → c.name = name

instance (captures : List Syntax.Capture) (chars : List Char) (row column : Nat)
    (name : String) : Decidable (OnlyUnder captures chars row column name) :=
  inferInstanceAs (Decidable (_ ∧ _))

/-- **Text that is captured under one name** has the scope that serves the name. -/
theorem seenScope_of_onlyUnder {code : List Char} {captures : List Syntax.Capture}
    {name : String} {scope : Option Nat}
    (hline : (Text.splitAt '\n' code)[row]? = some chars) (hcolumn : column < chars.length)
    (honly : OnlyUnder captures chars row column name)
    (hseen : Syntax.SeenScope ((Syntax.Highlights.ofCaptures code captures).onRow row) column
      scope) :
    scope = Syntax.scopeId? name := by
  obtain ⟨⟨c, hc, hhas⟩, hunder⟩ := honly
  cases scope with
  | none =>
      -- a scope of the name would have given the character a token
      cases hid : Syntax.scopeId? name with
      | none => rfl
      | some id =>
          have hsome : (Syntax.scopeId? c.name).isSome = true := by
            rw [hunder c hc hhas, hid]
            rfl
          obtain ⟨t, htoken, hcovers⟩ :=
            (Syntax.exists_covers_iff hcolumn).mpr ⟨hsome, hhas⟩
          have hmem : t ∈ (Syntax.Highlights.ofCaptures code captures).onRow row := by
            rw [Syntax.Highlights.mem_onRow_ofCaptures, hline]
            exact ⟨c, hc, htoken⟩
          have hfree : t.covers column = false := hseen t hmem
          rw [hcovers] at hfree
          cases hfree
  | some id =>
      obtain ⟨t, ⟨before, after, htokens, hcovers, -⟩, rfl⟩ := hseen
      have hmem : t ∈ (Syntax.Highlights.ofCaptures code captures).onRow row := by
        simp [htokens]
      obtain ⟨d, hd, htoken⟩ := Syntax.Highlights.mem_onRow_ofCaptures.mp hmem
      rw [hline, Option.getD_some] at htoken
      have hdhas := ((Syntax.exists_covers_iff hcolumn).mp ⟨t, htoken, hcovers⟩).2
      have hscope := (Syntax.tokenOn?_eq_some_iff.mp htoken).2.1
      rw [← hunder d hd hdhas, hscope]

/-- In a block of a source, text that is captured under one name only is painted in the
color that is given for the name. -/
def PaintsBy (d : Document) (code : String) (captures : List Syntax.Capture)
    (color? : String → Option Color) : Prop :=
  ∀ row chars column c name, (displayLines code.toList)[row]? = some chars →
    chars[column]? = some c → OnlyUnder captures chars row column name →
    ∃ e, d.lines[row]? = some e ∧
      (painted e.children)[column]? = some (c, (color? name).map colorStyle)

theorem paintsBy_nameColor? (code : String) (captures : List Syntax.Capture) (theme : Theme) :
    PaintsBy (renderDocument code (Syntax.Highlights.ofCaptures code.toList captures) theme) code
      captures (Syntax.nameColor? theme) := by
  intro row chars column c name hline hc honly
  have hcolumn : column < chars.length := (List.getElem?_eq_some_iff.mp hc).1
  obtain ⟨full, hfull, hprefix⟩ := exists_row_of_displayLines hline
  have honlyFull : OnlyUnder captures full row column name := by
    simpa only [OnlyUnder, has_iff_of_isPrefix hprefix hcolumn] using honly
  obtain ⟨scope, hseen, hpainted⟩ := painted_renderLine theme
    ((Syntax.Highlights.ofCaptures code.toList captures).onRow row) hc
  have hscope := seenScope_of_onlyUnder hfull (Nat.lt_of_lt_of_le hcolumn hprefix.length_le)
    honlyFull hseen
  rw [hscope] at hpainted
  refine ⟨renderLine theme ((Syntax.Highlights.ofCaptures code.toList captures).onRow row) chars,
    ?_, hpainted⟩
  rw [lines_renderDocument, List.getElem?_mapIdx, hline]
  rfl

/-- What grammars find, as an analysis: the tokens of the captures that they report. -/
def analysisOf (captures : String → Syntax.Language → List Syntax.Capture) : Syntax.Analysis :=
  fun code l => Syntax.Highlights.ofCaptures code.toList (captures code l)

theorem render_of_loaded {analyse : Syntax.Analysis} {around : Surroundings} {b : Bundled}
    {code language id : String} {l : Syntax.Language}
    (hlanguage : Syntax.Language.ofId? language = some l)
    (hloaded : b.grammars.loaded.contains l = true)
    (htheme : b.themes.lookup id = some theme) :
    ((engineWith analyse around).render code language id b).1 =
      .ok (renderDocument code (analyse code l) theme) := by
  have hready : b.grammars.isLoaded l = true := by
    rw [Syntax.Grammars.isLoaded, hloaded, Bool.or_true]
  simp only [engineWith, render, hlanguage, hready, htheme, Syntax.Grammars.highlightWith, hloaded,
    if_true]

/-- **The color of captured text.**  Whatever grammars report, and for any theme: text
that is captured under one name only is painted by way of the scope that serves the
name.  Its color is that of the longest key of the theme among those that serve the name
and count for it, serving a scope of the table that serves the name; there is none
without such a key.  It is the color that the theme has for the name itself if all keys
that serve the name count. -/
theorem painted_exact (captures : String → Syntax.Language → List Syntax.Capture)
    (around : Surroundings) (b : Bundled) (code language id : String) (l : Syntax.Language)
    (theme : Theme) (hlanguage : Syntax.Language.ofId? language = some l)
    (hloaded : b.grammars.loaded.contains l = true)
    (htheme : b.themes.lookup id = some theme) :
    (∃ d, ((engineWith (analysisOf captures) around).render code language id b).1 = .ok d ∧
      PaintsBy d code (captures code l) (Syntax.nameColor? theme)) ∧
    (∀ name color, Syntax.nameColor? theme name = some color ↔
      ∃ key, theme.scopes.lookup key = some color ∧
        Syntax.IsNearest
          (fun k => (theme.scopes.lookup k).isSome = true ∧ Syntax.Counts k name) name key) ∧
    ∀ name, (∀ key : String, (theme.scopes.lookup key).isSome = true →
        Syntax.Serves key.toList name.toList → Syntax.Counts key name) →
      Syntax.nameColor? theme name = theme.colorFor name := by
  refine ⟨⟨_, render_of_loaded hlanguage hloaded htheme, ?_⟩,
    fun name color => Syntax.nameColor?_eq_some_iff, fun name => Syntax.nameColor?_eq_colorFor⟩
  exact paintsBy_nameColor? code (captures code l) theme

/-- **Text under a name of the table.**  Text that is captured under one name only, which is in the
table, has the color that the theme has for the name. -/
theorem painted_of_mem_scopes (captures : String → Syntax.Language → List Syntax.Capture)
    (around : Surroundings) (b : Bundled) (code language id : String) (l : Syntax.Language)
    (theme : Theme) (hlanguage : Syntax.Language.ofId? language = some l)
    (hloaded : b.grammars.loaded.contains l = true)
    (htheme : b.themes.lookup id = some theme) :
    ∃ d, ((engineWith (analysisOf captures) around).render code language id b).1 = .ok d ∧
      ∀ row chars column c, ∀ name ∈ Syntax.scopes,
        (displayLines code.toList)[row]? = some chars → chars[column]? = some c →
        OnlyUnder (captures code l) chars row column name →
        ∃ e, d.lines[row]? = some e ∧
          (painted e.children)[column]? = some (c, (theme.colorFor name).map colorStyle) := by
  refine ⟨_, render_of_loaded hlanguage hloaded htheme, ?_⟩
  intro row chars column c name hname hline hc honly
  rw [← Syntax.nameColor?_of_mem_scopes hname]
  exact paintsBy_nameColor? code (captures code l) theme row chars column c name hline hc honly

/-- A theme with a color for one scope. -/
def oneScopeTheme (scope : String) (color : Color) : Theme :=
  { bareTheme with id := "mine", scopes := [(scope, color)] }

/-- An engine that has loaded one grammar and a theme. -/
def readyEngine (theme : Theme) : Bundled :=
  { grammars := { loaded := [.rust] }, themes := [("mine", theme)] }

/-- A name that is not in the table, in a theme with a key that counts for it. -/
theorem painted_exact_import :
    let theme := oneScopeTheme "keyword" ⟨255, 0, 0, 255⟩
    let captures := [(⟨"keyword.import", ⟨0, 0⟩, ⟨0, 3⟩⟩ : Syntax.Capture)]
    (Syntax.Language.ofId? "rust" = some .rust ∧
      (readyEngine theme).grammars.loaded.contains .rust = true ∧
      (readyEngine theme).themes.lookup "mine" = some theme) ∧
      ∃ d, ((engineWith (analysisOf fun _ _ => captures) {}).render "use é;" "rust" "mine"
          (readyEngine theme)).1 = .ok d ∧
        ∃ e, d.lines[0]? = some e ∧
          (painted e.children)[1]? = some ('s', some "color: #ff0000") := by
  intro theme captures
  obtain ⟨⟨d, hrender, hpaints⟩, -, -⟩ := painted_exact (fun _ _ => captures) {}
    (readyEngine theme) "use é;" "rust" "mine" .rust theme (by decide) (by decide) rfl
  obtain ⟨e, hline, hpainted⟩ := hpaints 0 "use é;".toList 1 's' "keyword.import" (by decide)
    (by decide) (by decide)
  have hcolor : (Syntax.nameColor? theme "keyword.import").map colorStyle =
      some "color: #ff0000" := by decide +kernel
  rw [hcolor] at hpainted
  exact ⟨⟨by decide, by decide, rfl⟩, d, hrender, e, hline, hpainted⟩

/-- **A key that does not count.**  A theme that has a color for the name of macros, and
none for functions, leaves the name of a macro without a color. -/
theorem not_painted_of_specific_key :
    let theme := oneScopeTheme "function.macro" ⟨0, 255, 0, 255⟩
    let captures : List Syntax.Capture :=
      [⟨"function.macro", ⟨0, 0⟩, ⟨0, 3⟩⟩, ⟨"function.macro", ⟨0, 3⟩, ⟨0, 4⟩⟩]
    theme.colorFor "function.macro" = some ⟨0, 255, 0, 255⟩ ∧
      ∃ d, ((engineWith (analysisOf fun _ _ => captures) {}).render "foo!();" "rust" "mine"
          (readyEngine theme)).1 = .ok d ∧
        ¬ PaintsBy d "foo!();" captures theme.colorFor := by
  intro theme captures
  have hcolor : theme.colorFor "function.macro" = some ⟨0, 255, 0, 255⟩ := by decide +kernel
  have hnone : Syntax.nameColor? theme "function.macro" = none := by decide +kernel
  have hrust : Syntax.Language.ofId? "rust" = some .rust := by decide
  have hloaded : (readyEngine theme).grammars.loaded.contains .rust = true := by decide
  have honly : OnlyUnder captures "foo!();".toList 0 0 "function.macro" := by decide
  refine ⟨hcolor, _, render_of_loaded hrust hloaded rfl, ?_⟩
  intro hclaimed
  obtain ⟨e, hline, hpainted⟩ := paintsBy_nameColor? "foo!();" captures theme 0
    "foo!();".toList 0 'f' "function.macro" (by decide) (by decide) honly
  obtain ⟨e', hline', hpainted'⟩ := hclaimed 0 "foo!();".toList 0 'f' "function.macro"
    (by decide) (by decide) honly
  obtain rfl : e = e' := Option.some.inj (hline.symm.trans hline')
  rw [hnone] at hpainted
  rw [hcolor, hpainted] at hpainted'
  cases hpainted'

end CodeFence.Bundled
