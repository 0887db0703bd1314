import CodeFence.Proofs.BareNames
import CodeFence.Proofs.YamlNames

/-!
# The line of a theme's name

A list of themes looks for the first line about a name, wherever this stands in the document, and
takes what is behind the key.  Where the name of the theme is the scalar that is written there, the
two agree exactly if nothing but quotes is to be taken off.  Where a line is one of the outermost
block and has all of its value on it, a reader of YAML finds the name of the theme there.

* `IsLines`, `lines_append` — lines that have ended, and the lines behind them;
* `normalizeBreaks_append` — a reader of YAML sees the same lines;
* `FirstName`, `nameIn?_of_first`, `nameIn?_eq_none` — the first line about a name, and what a list
  of themes makes of it;
* `Writes`, `Writes.bareName_eq_iff` — how a name is written, and when a list shows it as it is;
* `IsOwnLine`, `FindsNames` — a line of the outermost block, and a reader that finds names there;
* `findsNames_parse?` — the reader of the library does.
-/

namespace CodeFence.Theme

/-! ## Lines -/

variable {before line rest cs ds : List Char}

/-- A text that has no line begun. -/
def IsLines (cs : List Char) : Prop :=
  cs = [] ∨ ∃ front, cs = front ++ ['\n']

theorem lines_of_pieces {pieces : List (List Char)} {last : List Char}
    (h : Text.splitAt '\n' cs = pieces ++ [last]) :
    Text.lines cs = pieces.map Text.dropReturn ++ if last = [] then [] else [last] := by
  unfold Text.lines
  dsimp only
  rw [h, List.dropLast_concat, List.getLast?_concat]
  cases last with
  | nil => exact (List.append_nil _).symm
  | cons c last => rfl

/-- Lines that have ended do not change when more come. -/
theorem lines_append (h : IsLines before) (rest : List Char) :
    Text.lines (before ++ rest) = Text.lines before ++ Text.lines rest := by
  rcases h with rfl | ⟨front, rfl⟩
  · rfl
  · obtain ⟨pieces, last, hpieces⟩ : ∃ pieces last, Text.splitAt '\n' rest = pieces ++ [last] :=
      ⟨_, _, (List.dropLast_concat_getLast (Text.splitWhere_ne_nil _ rest)).symm⟩
    have hends : Text.splitAt '\n' (front ++ ['\n']) = Text.splitAt '\n' front ++ [[]] :=
      Text.splitAt_append_sep '\n' front []
    have hall : Text.splitAt '\n' (front ++ ['\n'] ++ rest) =
        Text.splitAt '\n' front ++ pieces ++ [last] := by
      rw [List.append_assoc, List.append_assoc, ← hpieces]
      exact Text.splitAt_append_sep '\n' front rest
    rw [lines_of_pieces hall, lines_of_pieces hends, lines_of_pieces hpieces, List.map_append,
      if_pos rfl, List.append_nil, List.append_assoc]

/-- A line that ends. -/
theorem lines_line (hline : '\n' ∉ line) (rest : List Char) :
    Text.lines (line ++ '\n' :: rest) = Text.dropReturn line :: Text.lines rest := by
  have hends : Text.splitAt '\n' (line ++ ['\n']) = [line] ++ [[]] := by
    rw [Text.splitAt_append_sep, Text.splitAt_of_not_mem hline]
    rfl
  have hlines := lines_append (.inr ⟨line, rfl⟩) rest
  rw [lines_of_pieces hends] at hlines
  simpa using hlines

theorem dropReturn_eq_self (h : '\r' ∉ line) : Text.dropReturn line = line :=
  if_neg fun hlast => h (List.mem_of_getLast? hlast)

/-- What a line ends with: nothing more, or a line break. -/
def IsAfter (cs : List Char) : Prop :=
  cs = [] ∨ (∃ rest, cs = '\n' :: rest) ∨ ∃ rest, cs = '\r' :: '\n' :: rest

/-- The first line of a text. -/
theorem exists_lines (hnil : line ≠ []) (hnewline : '\n' ∉ line) (hreturn : '\r' ∉ line)
    (hafter : IsAfter rest) : ∃ others, Text.lines (line ++ rest) = line :: others := by
  rcases hafter with rfl | ⟨rest, rfl⟩ | ⟨rest, rfl⟩
  · have hpieces : Text.splitAt '\n' line = [] ++ [line] := Text.splitAt_of_not_mem hnewline
    exact ⟨[], by rw [List.append_nil, lines_of_pieces hpieces, if_neg hnil]; rfl⟩
  · exact ⟨_, dropReturn_eq_self hreturn ▸ lines_line hnewline rest⟩
  · have hnewline : '\n' ∉ line ++ ['\r'] := by simp [hnewline]
    have hlines := lines_line hnewline rest
    rw [Text.dropReturn, List.getLast?_concat, if_pos rfl, List.dropLast_concat,
      List.append_assoc] at hlines
    exact ⟨_, hlines⟩

/-! ## Line breaks -/

theorem normalizeBreaks_append (h : cs.getLast? ≠ some '\r') (ds : List Char) :
    Yaml.normalizeBreaks (cs ++ ds) = Yaml.normalizeBreaks cs ++ Yaml.normalizeBreaks ds := by
  induction cs using Yaml.normalizeBreaks.induct with
  | case1 rest ih =>
      have hrest : rest.getLast? ≠ some '\r' := by
        cases rest <;> simp_all [List.getLast?_cons]
      rw [Yaml.normalizeBreaks, List.cons_append, List.cons_append, Yaml.normalizeBreaks, ih hrest]
      rfl
  | case2 c rest hpair ih =>
      have hrest : rest.getLast? ≠ some '\r' := by
        cases rest <;> simp_all [List.getLast?_cons]
      have hpair' : ∀ rest', c = '\r' → rest ++ ds = '\n' :: rest' → False := by
        rintro rest' rfl heq
        cases rest with
        | nil => exact h rfl
        | cons d rest => exact hpair rest rfl (congrArg (· :: rest) (List.cons.inj heq).1)
      rw [Yaml.normalizeBreaks.eq_2 _ _ hpair, List.cons_append,
        Yaml.normalizeBreaks.eq_2 _ _ hpair', ih hrest]
      rfl
  | case3 => rfl

theorem getLast?_normalizeBreaks (h : cs.getLast? = some '\n') :
    (Yaml.normalizeBreaks cs).getLast? = some '\n' := by
  induction cs using Yaml.normalizeBreaks.induct with
  | case1 rest ih =>
      rw [Yaml.normalizeBreaks, List.getLast?_cons]
      cases rest with
      | nil => rfl
      | cons d rest =>
          rw [List.getLast?_cons_cons, List.getLast?_cons_cons] at h
          rw [ih h]
          rfl
  | case2 c rest hpair ih =>
      rw [Yaml.normalizeBreaks.eq_2 _ _ hpair, List.getLast?_cons]
      cases rest with
      | nil =>
          cases h
          rfl
      | cons d rest =>
          rw [List.getLast?_cons_cons] at h
          rw [ih h]
          rfl
  | case3 => cases h

theorem normalizeBreaks_eq_self (h : ∀ c ∈ cs, c ≠ '\r' ∧ c ≠ '\u0085') :
    Yaml.normalizeBreaks cs = cs := by
  induction cs using Yaml.normalizeBreaks.induct with
  | case1 rest ih => exact absurd rfl (h '\r' List.mem_cons_self).1
  | case2 c rest hpair ih =>
      obtain ⟨hc, hrest⟩ := List.forall_mem_cons.mp h
      rw [Yaml.normalizeBreaks.eq_2 _ _ hpair, ih hrest]
      simp [hc]
  | case3 => rfl

theorem IsLines.getLast?_ne (h : IsLines cs) : cs.getLast? ≠ some '\r' := by
  rcases h with rfl | ⟨front, rfl⟩
  · nofun
  · simp

theorem IsLines.endsLine (h : IsLines cs) : Yaml.EndsLine {} (Yaml.normalizeBreaks cs) := by
  rcases h with rfl | ⟨front, rfl⟩
  · rfl
  · rw [Yaml.EndsLine, getLast?_normalizeBreaks List.getLast?_concat]
    rfl

theorem IsAfter.head_break (h : IsAfter cs) :
    ∀ c ∈ (Yaml.normalizeBreaks cs).head?, Yaml.isBreak c = true := by
  rcases h with rfl | ⟨rest, rfl⟩ | ⟨rest, rfl⟩
  · nofun
  · rintro _ ⟨⟩
    rfl
  · rintro _ ⟨⟩
    rfl

/-! ## Lines about a name -/

open Yaml.Token.Scan (nameKey IsAbove entryTokens)

variable {text value : List Char}

/-- Whether a line is about a name. -/
def isAboutName (line : List Char) : Bool :=
  (Text.after? nameKey (Text.trim line)).isSome

/-- What stands behind the key on the first line about a name, wherever in the document it is. -/
def FirstName (text value : List Char) : Prop :=
  ∃ above line below, Text.lines text = above ++ line :: below ∧
    (∀ other ∈ above, isAboutName other = false) ∧ Text.trim line = nameKey ++ value

theorem after?_eq_none (h : isAboutName line = false) :
    Text.after? nameKey (Text.trim line) = none :=
  Option.not_isSome_iff_eq_none.mp (by rw [← isAboutName, h]; exact Bool.false_ne_true)

/-- A list finds no name where no line is about one. -/
theorem nameIn?_eq_none (h : ∀ line ∈ Text.lines text, isAboutName line = false) :
    nameIn? text = none := by
  refine List.findSome?_eq_none_iff.mpr fun line hline => ?_
  show (Text.after? nameKey (Text.trim line)).map _ = none
  rw [after?_eq_none (h line hline)]
  rfl

/-- **What a list finds**: what stands on the first line about a name, without quotes around it. -/
theorem nameIn?_of_first (h : FirstName text value) :
    nameIn? text = some (String.ofList (bareName value)) := by
  obtain ⟨above, line, below, hlines, habove, htrim⟩ := h
  show (Text.lines text).findSome? (fun line => (Text.after? nameKey (Text.trim line)).map
    fun value => String.ofList (bareName value)) = _
  rw [hlines, List.findSome?_append, List.findSome?_eq_none_iff.mpr, Option.none_or,
    List.findSome?_cons, Text.after?_eq_some_iff.mpr htrim]
  · rfl
  · intro other hother
    rw [after?_eq_none (habove other hother)]
    rfl

theorem firstName_cases (text : List Char) :
    (∀ line ∈ Text.lines text, isAboutName line = false) ∨ ∃ value, FirstName text value := by
  by_cases hnone : ∀ line ∈ Text.lines text, isAboutName line = false
  · exact .inl hnone
  · have hsome : ((Text.lines text).find? isAboutName).isSome = true := by
      simpa [List.find?_isSome] using hnone
    obtain ⟨line, hfind⟩ := Option.isSome_iff_exists.mp hsome
    obtain ⟨habout, above, below, hlines, habove⟩ := List.find?_eq_some_iff_append.mp hfind
    obtain ⟨value, hvalue⟩ := Option.isSome_iff_exists.mp habout
    refine .inr ⟨value, above, line, below, hlines, fun other hother => ?_,
      Text.after?_eq_some_iff.mp hvalue⟩
    simpa using habove other hother

/-! ## How a name is written -/

/-- Anchors and tags, each with blanks behind it. -/
inductive IsProperties : List Char → Prop
  | none : IsProperties []
  | more {mark : Char} {label blanks rest : List Char} (hmark : mark = '&' ∨ mark = '!')
      (hlabel : ∀ c ∈ label, Yaml.isSpace c = false) (hnil : blanks ≠ [])
      (hblanks : ∀ c ∈ blanks, Yaml.isSpace c = true) (hrest : IsProperties rest) :
      IsProperties (mark :: (label ++ (blanks ++ rest)))

/-- How a name is written behind its key: the anchors and tags in front, a scalar with its quotes
and with a comment behind it, and what follows behind a mark if the line is between brackets. -/
structure Writes (value front word back : List Char) (name : String) : Prop where
  parts : ∃ lead trail, value = lead ++ (front ++ (word ++ (trail ++ back))) ∧ lead ≠ [] ∧
    (∀ c ∈ lead, Yaml.isSpace c = true) ∧ (∀ c ∈ trail, Yaml.isSpace c = true) ∧
    ∃ isPlain, Yaml.tokens? (nameKey ++ (lead ++ (word ++ trail))) = some (entryTokens name isPlain)
  front : IsProperties front
  back : back = [] ∨ ∃ mark rest, back = mark :: rest ∧ Yaml.isFlowMark mark = true
  word_ends : HasEnds Yaml.isSpace word
  line : ∀ c ∈ value, c ≠ '\r' ∧ c ≠ '\u0085' ∧ Yaml.isBreak c = false

theorem IsProperties.eq_nil {front : List Char} (h : IsProperties front)
    (hweight : Yaml.weight front = 0) : front = [] := by
  cases h with
  | none => rfl
  | @more mark label blanks rest hmark =>
      have hsolid : Yaml.isSolid mark = true := by rcases hmark with rfl | rfl <;> decide
      rw [Yaml.weight_cons, Yaml.weight_of_isSolid hsolid] at hweight
      omega

theorem eq_nil_of_back {back : List Char}
    (h : back = [] ∨ ∃ mark rest, back = mark :: rest ∧ Yaml.isFlowMark mark = true)
    (hweight : Yaml.weight back = 0) : back = [] := by
  rcases h with rfl | ⟨mark, rest, rfl, hmark⟩
  · rfl
  · have hsolid : Yaml.isSolid mark = true := by
      simp only [Yaml.isFlowMark, Bool.or_eq_true, decide_eq_true_eq] at hmark
      rcases hmark with (((rfl | rfl) | rfl) | rfl) | rfl <;> decide
    rw [Yaml.weight_cons, Yaml.weight_of_isSolid hsolid] at hweight
    omega

/-- A token ends in front of blanks. -/
theorem endsToken_of_blanks {lead : List Char} (hnil : lead ≠ [])
    (hlead : ∀ c ∈ lead, Yaml.isSpace c = true) (rest : List Char) :
    Yaml.endsToken (lead ++ rest) = true := by
  obtain ⟨c, blanks, rfl⟩ := List.exists_cons_of_ne_nil hnil
  have hspace := hlead c List.mem_cons_self
  simp [Yaml.endsToken, hspace]

/-- The scalar on a line with a name starts where the word behind the blanks does. -/
theorem exists_scalar_of_word {lead word trail : List Char} {name : String} {isPlain : Bool}
    (hnil : lead ≠ []) (hlead : ∀ c ∈ lead, Yaml.isSpace c = true)
    (htrail : ∀ c ∈ trail, Yaml.isSpace c = true) (hword : HasEnds Yaml.isSpace word)
    (hline : ∀ c ∈ lead ++ (word ++ trail), Yaml.isBreak c = false)
    (h : Yaml.tokens? (nameKey ++ (lead ++ (word ++ trail))) = some (entryTokens name isPlain)) :
    ∃ place scalar, 0 < place.column ∧
      Yaml.scalar? false 1 ⟨place, word ++ trail⟩ = some scalar ∧
      String.ofList scalar.text = name ∧
      ∀ c ∈ (scalar.next.rest.dropWhile Yaml.isSpace).head?, c = '#' := by
  obtain ⟨place, scalar, hcol, hscalar, htext, -, hhash⟩ :=
    Yaml.Token.Scan.exists_scalar_of_line hline (endsToken_of_blanks hnil hlead _) h
  rw [List.dropWhile_append_of_pos hlead] at hscalar
  have hstart : (word ++ trail).dropWhile Yaml.isSpace = word ++ trail := by
    cases hcs : word with
    | nil =>
        -- A line without a word has no scalar.
        rw [hcs, List.nil_append, List.dropWhile_eq_nil_iff.mpr htrail] at hscalar
        cases hscalar
    | cons c rest =>
        have hhead := hword.head
        rw [hcs] at hhead
        exact dropWhile_eq_self fun d hd => hhead d hd
  rw [hstart] at hscalar
  exact ⟨place, scalar, by omega, hscalar, htext, hhash⟩

/-- **Names that are shown as they are.** What a list makes of a written name is the name exactly
if nothing but quotes is to be taken off. -/
theorem Writes.bareName_eq_iff {front word back : List Char} {name : String}
    (h : Writes value front word back name) :
    String.ofList (bareName value) = name ↔ front = [] ∧ back = [] ∧ IsLiteral word := by
  obtain ⟨lead, trail, rfl, hnil, hlead, htrail, isPlain, halone⟩ := h.parts
  have hline : ∀ c ∈ lead ++ (word ++ trail), Yaml.isBreak c = false := by
    intro c hc
    refine (h.line c ?_).2.2
    simp only [List.mem_append] at hc ⊢
    rcases hc with hlead | hword | htrail <;> simp [*]
  have hbreak := (List.forall_mem_append.mp hline).2
  obtain ⟨place, scalar, hpos, hscalar, rfl, hhash⟩ :=
    exists_scalar_of_word hnil hlead htrail h.word_ends hline halone
  have hiff := Theme.bareName_eq_iff hlead htrail h.word_ends hbreak hpos hscalar hhash
  rw [String.ofList_inj]
  constructor
  · intro heq
    -- The scalar is no heavier than the word it is read from, so nothing else has weight.
    have hsame := weight_bareName (lead ++ (front ++ (word ++ (trail ++ back))))
    have hle := Yaml.weight_scalar?_le hbreak hpos hscalar
    rw [heq] at hsame
    simp only [Yaml.weight_append] at hsame hle
    have hfront := h.front.eq_nil (by omega)
    have hback := eq_nil_of_back h.back (by omega)
    rw [hfront, hback, List.append_nil, List.nil_append] at heq
    exact ⟨hfront, hback, hiff.mp heq⟩
  · intro hwritten
    obtain ⟨rfl, rfl, hliteral⟩ := hwritten
    rw [List.append_nil, List.nil_append]
    exact hiff.mpr hliteral

/-! ## A name in its document -/

variable {read : String → Option Yaml.Node} {before after front word : List Char} {name : String}

/-- Lines that a key of the outermost block may stand below: there is nothing on them, or they are
a document by themselves, and a mapping with the key behind. -/
def IsAboveKey (read : String → Option Yaml.Node) (before : List Char) : Prop :=
  Yaml.tokens? (Yaml.normalizeBreaks before) = some [] ∨
    (read (String.ofList before) = some .empty ∨
      ∃ entries, read (String.ofList before) = some (.mapping entries)) ∧
    ∃ entries, read (String.ofList (before ++ nameKey)) = some (.mapping entries)

/-- Where an entry of the outermost block may stand on a line of its own. -/
structure IsOwnLine (read : String → Option Yaml.Node) (before after : List Char) : Prop where
  isLines : IsLines before
  above : IsAboveKey read before
  isAfter : IsAfter after
  /-- No scalar goes on below. -/
  below : Yaml.goesOn false (Yaml.normalizeBreaks after) = false

/-- **What a reader of YAML does with a name**: a line of its own is an entry of the outermost
block, whose value is the scalar that stands there.  Anchors and tags are no part of it. -/
def FindsNames (read : String → Option Yaml.Node) : Prop :=
  ∀ {before after value front word : List Char} {name : String} {node : Yaml.Node},
    IsOwnLine read before after → Writes value front word [] name →
    read (String.ofList (before ++ (nameKey ++ value ++ after))) = some node →
    ∃ entries isPlain, node = .mapping entries ∧
      (.scalar "name" true, .scalar name isPlain) ∈ entries

/-- What stands behind the key on a trimmed line. -/
theorem trim_key (value : List Char) : ∃ rest, Text.trim (nameKey ++ value) = nameKey ++ rest ∧
    Text.trim rest = Text.trim value := by
  obtain ⟨rest, trail, rfl, hlast, htrail⟩ := exists_dropTrail Text.isBlank value
  refine ⟨rest, ?_, ?_⟩
  · have hends : HasEnds Text.isBlank (nameKey ++ rest) := by
      refine ⟨?_, fun c hc => ?_⟩
      · rintro _ ⟨⟩
        decide
      · rw [List.getLast?_append] at hc
        cases hrest : rest.getLast? with
        | none =>
            rw [hrest] at hc
            cases hc
            decide
        | some d =>
            rw [hrest] at hc
            cases hc
            exact hlast c hrest
    rw [trim_eq, ← List.append_assoc]
    exact dropEnds_around hends (List.forall_mem_nil _) htrail
  · rw [trim_eq, trim_eq]
    exact (dropEnds_append (List.forall_mem_nil _) htrail rest).symm

/-- A line with a name, below lines that are about none. -/
theorem firstName_of_line (hlines : IsLines before) (hafter : IsAfter after)
    (hvalue : ∀ c ∈ value, c ≠ '\r' ∧ c ≠ '\u0085' ∧ Yaml.isBreak c = false)
    (hfirst : ∀ line ∈ Text.lines before, isAboutName line = false) :
    ∃ rest, FirstName (before ++ (nameKey ++ value ++ after)) rest ∧
      bareName rest = bareName value := by
  have hline : ∀ c ∈ nameKey ++ value, c ≠ '\n' ∧ c ≠ '\r' := by
    refine List.forall_mem_append.mpr ⟨by simp [nameKey], fun c hc => ?_⟩
    obtain ⟨hreturn, -, hbreak⟩ := hvalue c hc
    refine ⟨?_, hreturn⟩
    intro heq
    subst heq
    cases hbreak
  have hnil : nameKey ++ value ≠ [] := List.append_ne_nil_of_left_ne_nil (by decide) value
  obtain ⟨others, hothers⟩ := exists_lines hnil
    (fun hmem => (hline '\n' hmem).1 rfl) (fun hmem => (hline '\r' hmem).2 rfl) hafter
  obtain ⟨rest, htrim, hrest⟩ := trim_key value
  refine ⟨rest, ⟨Text.lines before, nameKey ++ value, others, ?_, hfirst, htrim⟩, ?_⟩
  · rw [← hothers, ← lines_append hlines]
  · rw [bareName, bareName, hrest]

/-- A reader of YAML sees the same lines. -/
theorem normalizeBreaks_line (hlines : IsLines before)
    (hvalue : ∀ c ∈ value, c ≠ '\r' ∧ c ≠ '\u0085' ∧ Yaml.isBreak c = false)
    (after : List Char) :
    Yaml.normalizeBreaks (before ++ (nameKey ++ value ++ after)) =
      Yaml.normalizeBreaks before ++ (nameKey ++ (value ++ Yaml.normalizeBreaks after)) := by
  have hline : ∀ c ∈ nameKey ++ value, c ≠ '\r' ∧ c ≠ '\u0085' :=
    List.forall_mem_append.mpr ⟨by simp [nameKey], fun c hc =>
      ⟨(hvalue c hc).1, (hvalue c hc).2.1⟩⟩
  have hlast : (nameKey ++ value).getLast? ≠ some '\r' := fun hlast =>
    (hline '\r' (List.mem_of_getLast? hlast)).1 rfl
  rw [normalizeBreaks_append hlines.getLast?_ne, normalizeBreaks_append hlast,
    normalizeBreaks_eq_self hline, List.append_assoc]

/-! ## The reader of the library -/

theorem parse?_eq_some_iff {cs : List Char} {node : Yaml.Node} :
    Yaml.parse? (String.ofList cs) = some node ↔
      (Yaml.normalizeBreaks cs).all Yaml.isAllowed = true ∧
        ∃ tokens, Yaml.tokens? (Yaml.normalizeBreaks cs) = some tokens ∧
          Yaml.Node.ofTokens? tokens = some node := by
  unfold Yaml.parse?
  dsimp only
  rw [String.toList_ofList]
  split
  · next hallowed => simp only [hallowed, true_and, Option.bind_eq_some_iff]
  · next hallowed => simp only [hallowed, false_and, reduceCtorEq, Bool.false_eq_true]

/-- What is read as a mapping or as nothing does not end with a scalar. -/
theorem getLast?_ne_scalar {cs : List Char} {tokens : List Yaml.Token} {node : Yaml.Node}
    (hread : Yaml.tokens? cs = some tokens) (hnode : Yaml.Node.ofTokens? tokens = some node)
    (hkind : node = .empty ∨ ∃ entries, node = .mapping entries) (text : String)
    (isPlain : Bool) : tokens.getLast? ≠ some (.scalar text isPlain) := by
  intro hlast
  rcases hkind with rfl | ⟨entries, rfl⟩
  · have hempty : tokens.getLast? ≠ some (.scalar "" true) :=
      Yaml.Token.Scan.getLast?_of_finish? (by simp) hread
    rcases Yaml.getLast?_of_empty hnode with hends | hends | hends
    · cases hlast.symm.trans hends
    · cases hlast.symm.trans hends
    · exact hempty hends
  · rcases Yaml.mapping_of_ofTokens? hnode with ⟨start, body, hstart, rfl⟩ | hends | hends
    · rw [Yaml.ofTokens?_opening hstart] at hnode
      rcases Yaml.getLast?_of_entries? hnode with hends | hends <;>
        simp [List.getLast?_append, hends] at hlast
    · cases hlast.symm.trans hends
    · cases hlast.symm.trans hends

theorem IsAboveKey.exists_tokens (hlines : IsLines before)
    (h : IsAboveKey Yaml.parse? before) :
    ∃ tokens, Yaml.tokens? (Yaml.normalizeBreaks before) = some tokens ∧ IsAbove tokens := by
  rcases h with hnothing | ⟨hdocument, entries, hkey⟩
  · exact ⟨[], hnothing, .nothing⟩
  · obtain ⟨node, hnode, hkind⟩ : ∃ node, Yaml.parse? (String.ofList before) = some node ∧
        (node = .empty ∨ ∃ entries, node = .mapping entries) := by
      rcases hdocument with hempty | ⟨entries, hmapping⟩
      · exact ⟨_, hempty, .inl rfl⟩
      · exact ⟨_, hmapping, .inr ⟨entries, rfl⟩⟩
    obtain ⟨-, tokens, hread, hnode⟩ := parse?_eq_some_iff.mp hnode
    obtain ⟨-, named, hnamed, hmapping⟩ := parse?_eq_some_iff.mp hkey
    have hself : Yaml.normalizeBreaks nameKey = nameKey :=
      normalizeBreaks_eq_self (by simp [nameKey])
    rw [normalizeBreaks_append hlines.getLast?_ne, hself] at hnamed
    have hname := Option.bind_eq_some_iff.mpr ⟨named, hnamed, hmapping⟩
    exact ⟨tokens, hread, Yaml.Token.Scan.isAbove_of_name hlines.endsLine hread
      (getLast?_ne_scalar hread hnode hkind) hnode hname⟩

/-- **A reader of YAML.** The one of the library finds names. -/
theorem findsNames_parse? : FindsNames Yaml.parse? := by
  intro before after value front word name node hown hwrites hnode
  obtain ⟨lead, trail, hvalue, hnil, hlead, htrail, isPlain, halone⟩ := hwrites.parts
  obtain ⟨above, hread, habove⟩ := hown.above.exists_tokens hown.isLines
  obtain ⟨-, tokens, htokens, hdocument⟩ := parse?_eq_some_iff.mp hnode
  rw [normalizeBreaks_line hown.isLines hwrites.line] at htokens
  have hbelow : Yaml.IsBelow (Yaml.normalizeBreaks after) :=
    ⟨hown.isAfter.head_break, hown.below⟩
  have hblank (rest : List Char) : Yaml.endsToken (lead ++ rest) = true :=
    endsToken_of_blanks hnil hlead rest
  rw [List.append_nil] at hvalue
  cases hwrites.front with
  | none =>
      subst hvalue
      have hline : ∀ c ∈ lead ++ (word ++ trail), Yaml.isBreak c = false :=
        fun c hc => (hwrites.line c hc).2.2
      obtain ⟨entries, rfl, hmem⟩ := Yaml.Token.Scan.exists_mem_of_name hown.isLines.endsLine
        hread habove hline (hblank _) halone hbelow
        (Option.bind_eq_some_iff.mpr ⟨tokens, htokens, hdocument⟩)
      exact ⟨entries, isPlain, rfl, hmem⟩
  | @more mark label blanks rest hmark =>
      -- The library refuses anchors and tags.
      subst hvalue
      rw [List.append_assoc] at htokens
      have hspace : Yaml.isSpace mark = false := by rcases hmark with rfl | rfl <;> decide
      have hvalue (later : List Char) :
          (lead ++ mark :: later).dropWhile Yaml.isSpace = mark :: later := by
        rw [List.dropWhile_append_of_pos hlead, List.dropWhile_cons_of_neg (by simp [hspace])]
      have hnone := Yaml.Token.Scan.tokens?_of_property hown.isLines.endsLine hread habove
        (hblank _) hmark
        (hvalue (label ++ (blanks ++ rest) ++ (word ++ trail) ++ Yaml.normalizeBreaks after))
      cases hnone.symm.trans htokens

end CodeFence.Theme
