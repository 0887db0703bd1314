import CodeFence.Proofs.YamlEntries
import CodeFence.Proofs.YamlKeys

/-!
# A name on a line of its own

A line with a name is a small document of its own, whose value is one scalar.  Below the
entries of the outermost block, and with no line below on which the scalar goes on, it is the
same scalar that the document has as its name.

* `entryTokens`, `exists_scalar_of_line` — a line alone, and the scalar on it;
* `IsAbove`, `Precedes` — text behind which an entry of the outermost block may stand, and its
  tokens in front of that entry;
* `exists_atValue_below` — a scan comes below such text to the value of the key;
* `exists_eq_of_name` — it reads there what is read on the line alone;
* `exists_mem_of_name` — and the document has the entry;
* `isAbove_of_name` — if a document is still a mapping with a key below it, its text is such;
* `tokens?_of_property` — no anchor or tag is read in the place of the value.
-/

namespace CodeFence.Yaml.Token.Scan

variable {s s' : Scan} {c : Char} {cs rest tail : List Char} {fuel : Nat} {tokens : List Token}
  {place : Place}

/-! ## A line alone -/

/-- The tokens of a line with a name. -/
def entryTokens (text : String) (isPlain : Bool) : List Token :=
  [.beginMapping, .key, .scalar "name" true, .colon, .scalar text isPlain, .endBlock]

/-- A text that begins with a name's key. -/
theorem exists_atValue_of_tokens? (htail : endsToken tail = true)
    (h : tokens? (nameKey ++ tail) = some tokens) :
    ∃ (value : Scan) (left : Nat), value.AtValue ∧ value.cursor.rest = tail ∧
      value.tokens = [.colon, .scalar "name" true, .key, .beginMapping] ∧
      value.finish? left = some tokens := by
  have hat : AtKey { cursor := { rest := nameKey ++ tail } } := ⟨rfl, rfl, rfl, .inl rfl⟩
  have hskip : skip { cursor := { rest := nameKey ++ tail } } = _ :=
    skip_of_stop (c := 'n') rfl (by decide)
  rw [tokens?, finish?_succ, hskip] at h
  exact exists_atValue hat rfl htail h

/-- What a scan reads where a scalar's token is to come next. -/
theorem scalar?_of_fixed {read : List Token} {text : String} {isPlain : Bool} {n : Nat}
    (hrest : s.cursor.rest = c :: rest) (hfixed : s.Fixed read [] n)
    (hnext : token? c rest s = some s') (h : s'.finish? fuel = some tokens)
    (htokens : tokens = read.reverse ++ [.scalar text isPlain, .endBlock]) :
    s.scalar? = some s' ∧ s'.tokens.head? = some (.scalar text isPlain) := by
  have hmem {token : Token} (htook : Took token s s') :
      token = .scalar text isPlain ∨ token = .endBlock := by
    obtain ⟨more, heq, hmore⟩ := (htook.fixed hfixed).finish? h
    rw [htokens] at heq
    have hin := hmore List.mem_cons_self
    rw [← List.append_cancel_left heq] at hin
    simpa using hin
  rcases token?_took hrest hnext with ⟨token, hmark, htook⟩ | ⟨hscalar, -⟩
  · rcases hmem htook with rfl | rfl <;> cases hmark
  · obtain ⟨key, scalar, -, -, -, htook⟩ := scalar?_eq_some hscalar
    refine ⟨hscalar, ?_⟩
    rw [htook.head]
    rcases hmem htook with heq | heq
    · rw [heq]
    · cases heq

/-- Nothing is read where only the end of a block is to come. -/
theorem rest_of_fixed {read : List Token} {n : Nat} (hfixed : s.Fixed read [] n)
    (h : s.finish? fuel = some tokens) (htokens : tokens = read.reverse ++ [.endBlock]) :
    s.skip.cursor.rest = [] := by
  cases fuel with
  | zero => cases h
  | succ fuel =>
      rw [finish?_succ] at h
      obtain ⟨ready, hready, h⟩ := Option.bind_eq_some_iff.mp h
      have hfixed := hfixed.ready hready
      have hcursor : ready.cursor = s.skip.cursor := by
        rcases dropStaleKey?_eq_some hready with rfl | rfl <;> rfl
      cases hrest : ready.cursor.rest with
      | nil => rw [← hcursor, hrest]
      | cons c rest =>
          rw [proceed?_cons fuel hrest] at h
          obtain ⟨next, hnext, h⟩ := Option.bind_eq_some_iff.mp h
          rw [← cursor_closeBlocks (fun opened => opened ≤ ready.cursor.column) ready] at hrest
          obtain ⟨token, htoken, htook⟩ := exists_took hrest hnext
          obtain ⟨more, heq, hmore⟩ := (htook.fixed (hfixed.closeBlocks _)).finish? h
          rw [htokens] at heq
          have hin := hmore List.mem_cons_self
          rw [← List.append_cancel_left heq] at hin
          exact absurd (List.mem_singleton.mp hin) htoken

/-- Where no key may begin, a scalar is a token and nothing else. -/
theorem AtValue.scalar?_word {behind : Scan} (hat : s.AtValue) (word : List Char)
    (h : (s.atWord word).scalar? = some behind) : ∃ scalar,
    Yaml.scalar? false 1 (s.atWord word).cursor = some scalar ∧ behind.cursor = scalar.next ∧
    behind.tokens = .scalar (String.ofList scalar.text) scalar.isPlain :: s.tokens ∧
    behind.Fixed behind.tokens [] behind.count := by
  obtain ⟨key, scalar, hnote, hread, rfl, -⟩ := scalar?_eq_some h
  have hkey : key = none := by
    have hnoted : (s.atWord word).noteKey? = some (s.atWord word) :=
      if_neg (by simp [atWord, hat.keyAllowed])
    have hsame := Option.some.inj (hnoted.symm.trans hnote)
    exact (congrArg Scan.keyPlace hsame).symm.trans hat.keyPlace
  have hflow : (s.atWord word).inFlow = false := by simp [inFlow, atWord, hat.outer]
  have hleast : (s.atWord word).least = 1 := by simp [least, atWord, hat.columns]
  rw [hflow, hleast] at hread
  exact ⟨scalar, hread, rfl, rfl, fixed_tokens hkey hat.outer⟩

/-- **A line alone.** The value of a line with a name is a scalar behind blanks, and behind it is
nothing but a comment. -/
theorem exists_scalar_of_line {value : List Char} {text : String} {isPlain : Bool}
    (hline : ∀ c ∈ value, isBreak c = false) (hblank : endsToken value = true)
    (h : tokens? (nameKey ++ value) = some (entryTokens text isPlain)) :
    ∃ place scalar, place.column = 5 + (value.takeWhile isSpace).length ∧
      Yaml.scalar? false 1 ⟨place, value.dropWhile isSpace⟩ = some scalar ∧
      String.ofList scalar.text = text ∧ scalar.isPlain = isPlain ∧
      (∀ c ∈ (scalar.next.rest.dropWhile isSpace).head?, c = '#') := by
  obtain ⟨s, left, hat, rfl, htokens, h⟩ := exists_atValue_of_tokens? hblank h
  -- A line with nothing but blanks or a comment behind the key has other tokens.
  have hnothing (hnone : ∀ c ∈ (s.cursor.rest.dropWhile isSpace).head?, c = '#') : False := by
    have heq := hat.finish?_nothing hline hnone h
    rw [htokens] at heq
    cases heq
  have hmem : ∀ c ∈ s.cursor.rest.dropWhile isSpace, isBreak c = false :=
    fun c hc => hline c ((List.dropWhile_suffix isSpace).mem hc)
  have hcol : (s.cursor.toPlace.behind (s.cursor.rest.takeWhile isSpace)).column =
      5 + (s.cursor.rest.takeWhile isSpace).length := by
    rw [Place.column_behind_line fun c hc => hline c ((List.takeWhile_prefix isSpace).mem hc),
      hat.column]
  cases hword : s.cursor.rest.dropWhile isSpace with
  | nil => exact absurd (by simp [hword]) hnothing
  | cons c word =>
      rw [hword] at hmem
      have hc : c ≠ '#' := fun hc => hnothing (by simp [hword, hc])
      obtain ⟨left, h⟩ := hat.finish?_word hword hc (hmem c List.mem_cons_self) h
      obtain ⟨next, hnext, h⟩ := Option.bind_eq_some_iff.mp h
      obtain ⟨hscalar, hhead⟩ := scalar?_of_fixed rfl (hat.fixed_atWord _) hnext h
        (by rw [htokens]; rfl)
      obtain ⟨scalar, hread, hcursor, hbehind, hfixed⟩ := hat.scalar?_word _ hscalar
      rw [hbehind] at hhead
      obtain ⟨htext, hplain⟩ := Token.scalar.inj (Option.some.inj hhead)
      refine ⟨_, scalar, hcol, hread, htext, hplain, ?_⟩
      obtain ⟨used, hused, hplace⟩ := scalar?_used hread
      rw [hused] at hmem
      obtain ⟨husedLine, hrestLine⟩ := List.forall_mem_append.mp hmem
      have hpos : 0 < scalar.next.column := by
        rw [hplace, Place.column_behind_line husedLine]
        show 0 < (s.cursor.toPlace.behind _).column + _
        omega
      -- All tokens are there, so the scan has nothing but a comment left to skip.
      have hnil := rest_of_fixed hfixed h (by rw [hbehind, htext, hplain, htokens]; rfl)
      rw [skip, hcursor] at hnil
      exact eq_of_skipFrom_nil scalar.next.rest hpos hrestLine hnil

/-! ## A line in a text -/

/-- Text behind which the entry of a key may stand: there is nothing yet, or the mark of a document
or some entries, whose block is ended by the text's end. -/
inductive IsAbove : List Token → Prop
  | nothing : IsAbove []
  | document : IsAbove [.beginDocument]
  | entries {tokens : List Token} (h : IsOpenRecord tokens) : IsAbove (tokens ++ [.endBlock])

/-- The tokens of a text down to the entry of a key below it. -/
def Precedes (above tokens : List Token) : Prop :=
  above = tokens ++ [.endBlock] ∨ tokens = above ++ [.beginMapping]

/-- A text above a key is not inside brackets at its end. -/
theorem outer_of_isAbove (hshaped : s.Shaped)
    (habove : IsAbove (s.closeBlocks fun _ => false).tokens.reverse) : s.outer = [] := by
  refine Classical.byContradiction fun houter => ?_
  obtain ⟨bracket, hbracket, hfixed⟩ := hshaped.outer houter
  obtain ⟨later, htokens, -, hlater⟩ := hfixed.tokens
  have hmem : bracket ∈ s.tokens := htokens ▸ List.mem_append_left _ (hlater List.mem_cons_self)
  rw [closeBlocks_inFlow _ houter] at habove
  generalize hrow : s.tokens.reverse = row at habove
  rw [List.reverse_eq_iff] at hrow
  cases habove with
  | nothing => simp [hrow] at hmem
  | document =>
      rw [hrow] at hmem
      rw [List.mem_singleton.mp hmem] at hbracket
      cases hbracket
  | entries => exact hshaped.head (by simp [hrow])

/-- Where the blocks that do not begin in the first column are closed, a key of the outermost one
may begin. -/
theorem atKey_of_isAbove (hcol : s.cursor.column = 0) (hkey : s.keyAllowed = true)
    (houter : s.outer = []) (hsorted : s.IsSorted) :
    let closed := s.closeBlocks fun opened => opened ≤ 0
    closed.AtKey ∧ closed.cursor = s.cursor ∧
      Precedes (s.closeBlocks fun _ => false).tokens.reverse closed.beforeEntry.reverse := by
  have hall : (s.columns.takeWhile fun _ => !false).length = s.columns.length := by
    induction s.columns with
    | nil => rfl
    | cons column columns ih => exact congrArg (· + 1) ih
  rw [closeBlocks_eq _ houter, closeBlocks_eq _ houter]
  obtain ⟨hdrop, hlength⟩ | ⟨hdrop, hlength⟩ := columns_cases hsorted
  · refine ⟨⟨houter, hkey, hcol, .inl hdrop⟩, rfl, .inr ?_⟩
    simp only [beforeEntry, hdrop, hall, hlength, if_true, List.reverse_cons]
  · refine ⟨⟨houter, hkey, hcol, .inr hdrop⟩, rfl, .inl ?_⟩
    simp only [beforeEntry, hdrop, hall, hlength, List.replicate_succ, List.cons_append,
      List.reverse_cons]
    rfl

/-- A scalar's first character leads to it wherever a mark of a document is out of the question. -/
theorem readerAt_of_scalar? {least : Nat} {scalar : Scalar} {word : List Char}
    (hread : Yaml.scalar? false least ⟨place, c :: word⟩ = some scalar)
    (hends : endsToken rest = endsToken word) (hcol : s.cursor.column ≠ 0)
    (houter : s.outer = []) : readerAt c rest s = scalar? := by
  have hflow : s.inFlow = false := by simp [inFlow, houter]
  have hmark (b : Bool) : (decide (s.cursor.column = 0) && b) = false := by simp [hcol]
  rw [readerAt, hmark, hmark, hflow, hends]
  by_cases hsingle : c = '\''
  · rw [hsingle]; rfl
  by_cases hdouble : c = '"'
  · rw [hdouble]; rfl
  rw [scalar?_plain hsingle hdouble, plain?] at hread
  split at hread
  · next hplain =>
      unfold readerOf
      rw [if_neg Bool.false_ne_true, if_neg Bool.false_ne_true]
      split <;> simp_all [startsPlain, isFlowMark]
  · cases hread

theorem IsAbove.getLast? {above : List Token} (h : IsAbove above) (text : String)
    (isPlain : Bool) : above.getLast? ≠ some (.scalar text isPlain) := by
  cases h with
  | nothing => nofun
  | document => nofun
  | entries => simp

/-- At the end of some text a scan comes to the value of a key. -/
theorem exists_atValue_of_outer {left : Nat} (hrest : s.cursor.rest = []) (hended : s.Ended)
    (hshaped : s.Shaped) (houter : s.outer = []) (htail : endsToken tail = true)
    (h : (s.withMore (nameKey ++ tail)).proceed? left = some tokens) :
    ∃ (value : Scan) (left : Nat) (front : List Token),
      Precedes (s.closeBlocks fun _ => false).tokens.reverse front ∧ value.AtValue ∧
      value.cursor.rest = tail ∧
      value.tokens = [.colon, .scalar "name" true, .key] ++ front.reverse ∧
      value.finish? left = some tokens := by
  have hcol : s.cursor.column = 0 := by
    have hends := hended.endsLine
    rwa [hrest] at hends
  obtain ⟨hat, hcursor, hprecedes⟩ := atKey_of_isAbove (s := s.withMore _) hcol
    (hended.atEnd hrest houter) houter hshaped.sorted
  have hword : (s.withMore (nameKey ++ tail)).cursor.rest =
      'n' :: (['a', 'm', 'e', ':'] ++ tail) := congrArg (· ++ (nameKey ++ tail)) hrest
  rw [proceed?_cons left hword, show (s.withMore _).cursor.column = 0 from hcol] at h
  obtain ⟨value, left, hvalue, hrest', htokens, hfinish⟩ :=
    exists_atValue hat (hcursor ▸ hword) htail h
  rw [closeBlocks_withMore (fun _ => false)] at hprecedes
  exact ⟨value, left, _, hprecedes, hvalue, hrest',
    htokens.trans (by rw [List.reverse_reverse]), hfinish⟩

theorem ended_start {before : List Char} (hbefore : EndsLine {} before) :
    Ended { cursor := { rest := before } } :=
  ⟨hbefore, fun _ _ => rfl⟩

theorem shaped_start (before : List Char) : Shaped { cursor := { rest := before } } :=
  ⟨.nil, nofun, ⟨⟨[], rfl, rfl, List.nil_subset _⟩, nofun, nofun⟩, fun hne => absurd rfl hne⟩

/-- Below some text a scan comes to the value of a key. -/
theorem exists_atValue_below {before : List Char} {above : List Token}
    (hbefore : EndsLine {} before) (hread : tokens? before = some above) (habove : IsAbove above)
    (htail : endsToken tail = true) (h : tokens? (before ++ (nameKey ++ tail)) = some tokens) :
    ∃ (value : Scan) (left : Nat) (front : List Token), Precedes above front ∧ value.AtValue ∧
      value.cursor.rest = tail ∧
      value.tokens = [.colon, .scalar "name" true, .key] ++ front.reverse ∧
      value.finish? left = some tokens := by
  obtain ⟨e, hrest, hended, hshaped, rfl, hmore⟩ := exists_atEnd (c := 'n') hread
    (ended_start hbefore) (shaped_start before) habove.getLast? (by decide)
  obtain ⟨left, hleft⟩ := hmore h
  exact exists_atValue_of_outer hrest hended hshaped (outer_of_isAbove hshaped habove) htail hleft

/-! ## Text that a key goes on with -/

/-- What opens a document has no key. -/
theorem exists_opening {start front body behind : List Token} (hstart : IsOpening start)
    (h : front ++ .key :: behind = start ++ body) : ∃ inner, front = start ++ inner := by
  rcases List.append_eq_append_iff.mp h with ⟨beyond, heq, hbehind⟩ | ⟨inner, heq, -⟩
  · cases beyond with
    | nil => exact ⟨[], by simpa using heq.symm⟩
    | cons t beyond =>
        obtain rfl := (List.cons.inj hbehind).1
        have hmem : Token.key ∈ start := by simp [heq]
        rcases hstart with rfl | rfl <;> simp at hmem
  · exact ⟨inner, heq⟩

/-- A document that goes on with an entry is a block that is open, or has not begun. -/
theorem IsAbove.of_entry {above front : List Token} {node mapping : Node}
    (hprecedes : Precedes above front) (hnode : Node.ofTokens? above = some node)
    {start inner behind : List Token} (hstart : IsOpening start) (hfront : front = start ++ inner)
    (h : Node.ofTokens? (front ++ behind) = some mapping) : IsAbove above := by
  rcases hprecedes with rfl | hopens
  · refine .entries ⟨start, inner, hstart, hfront, ?_⟩
    rw [hfront, List.append_assoc, ofTokens?_opening hstart] at hnode
    rw [hnode]
    rfl
  · rcases List.eq_nil_or_concat inner with rfl | ⟨inner, last, rfl⟩
    · rw [hopens, List.append_nil] at hfront
      rcases hstart with rfl | rfl
      · rw [List.append_left_eq_self.mp hfront]
        exact .nothing
      · obtain rfl : above = [.beginDocument] := List.append_cancel_right hfront
        exact .document
    · rw [hopens, List.concat_eq_append, ← List.append_assoc] at hfront
      obtain ⟨habove, hlast⟩ := List.append_inj' hfront rfl
      rw [habove] at hnode
      have hnone := ofTokens?_closed hstart hnode behind
      rw [hopens, habove, List.append_assoc, List.append_assoc] at h
      cases hnone.symm.trans h

/-- **Text that a key goes on with.** If a document is still one with a key below it, and a mapping
then, the key is one of its outermost block. -/
theorem isAbove_of_name {before : List Char} {above : List Token} {node : Node}
    {entries : List (Node × Node)} (hbefore : EndsLine {} before)
    (hread : tokens? before = some above)
    (hlast : ∀ text isPlain, above.getLast? ≠ some (.scalar text isPlain))
    (hnode : Node.ofTokens? above = some node)
    (hname : (tokens? (before ++ nameKey)).bind Node.ofTokens? = some (.mapping entries)) :
    IsAbove above := by
  obtain ⟨named, hnamed, hmapping⟩ := Option.bind_eq_some_iff.mp hname
  obtain ⟨e, hrest, hended, hshaped, habove, hmore⟩ := exists_atEnd (c := 'n') hread
    (ended_start hbefore) (shaped_start before) hlast (by decide)
  obtain ⟨left, hleft⟩ := hmore hnamed
  by_cases houter : e.outer = []
  · obtain ⟨value, left, front, hprecedes, hat, hvalue, htokens, hfinish⟩ :=
      exists_atValue_of_outer hrest hended hshaped houter (rfl : endsToken [] = true) hleft
    have heq := hat.finish?_nothing (by simp [hvalue]) (by simp [hvalue]) hfinish
    have hrow : named = front ++ .key :: [.scalar "name" true, .colon, .endBlock] := by
      rw [heq, htokens]
      simp
    rw [hrow] at hmapping
    rw [← habove] at hprecedes
    rcases mapping_of_ofTokens? hmapping with ⟨start, body, hstart, hbody⟩ | hends | hends
    · obtain ⟨inner, hfront⟩ := exists_opening hstart hbody
      exact .of_entry hprecedes hnode hstart hfront hmapping
    · simp at hends
    · simp at hends
  · have hcol : e.cursor.column = 0 := by
      have hends := hended.endsLine
      rwa [hrest] at hends
    have hcolon : named.getLast? = some .colon :=
      getLast?_of_nameKey (s := e.withMore nameKey) (by simp [withMore, hrest]) hcol houter hleft
    rcases mapping_of_ofTokens? hmapping with ⟨start, body, hstart, rfl⟩ | hends | hends
    · rw [ofTokens?_opening hstart] at hmapping
      rcases getLast?_of_entries? hmapping with hends | hends <;>
        simp [List.getLast?_append, hends] at hcolon
    · cases hcolon.symm.trans hends
    · cases hcolon.symm.trans hends

/-- **A name in its text.** Behind the entries above it, the name of a line is read as it is read
alone. -/
theorem exists_eq_of_name {before value post : List Char} {above : List Token} {text : String}
    {isPlain : Bool} (hbefore : EndsLine {} before) (hread : tokens? before = some above)
    (habove : IsAbove above) (hline : ∀ c ∈ value, isBreak c = false)
    (hblank : endsToken value = true)
    (halone : tokens? (nameKey ++ value) = some (entryTokens text isPlain))
    (hbelow : IsBelow post) (h : tokens? (before ++ (nameKey ++ (value ++ post))) = some tokens) :
    ∃ front behind, Precedes above front ∧
      tokens =
        front ++ .key :: .scalar "name" true :: .colon :: .scalar text isPlain :: behind := by
  obtain ⟨place, alone, hcol, hscalar, htext, hplain, -⟩ :=
    exists_scalar_of_line hline hblank halone
  have htail : endsToken (value ++ post) = true := (hbelow.endsToken_append value).trans hblank
  obtain ⟨s, left, front, hprecedes, hat, hrest, htokens, h⟩ :=
    exists_atValue_below hbefore hread habove htail h
  have hmem : ∀ c ∈ value.dropWhile isSpace, isBreak c = false :=
    fun c hc => hline c ((List.dropWhile_suffix isSpace).mem hc)
  cases hword : value.dropWhile isSpace with
  | nil =>
      rw [hword] at hscalar
      cases hscalar
  | cons c word =>
      rw [hword] at hmem hscalar
      have hrow : value = value.takeWhile isSpace ++ c :: word := by
        rw [← hword, List.takeWhile_append_dropWhile]
      have hlength : (value.takeWhile isSpace).length ≠ value.length := by
        conv => rhs; rw [hrow, List.length_append, List.length_cons]
        omega
      have hstart : s.cursor.rest.dropWhile isSpace = c :: (word ++ post) := by
        rw [hrest, List.dropWhile_append, hword]
        rfl
      have hblanks : s.cursor.rest.takeWhile isSpace = value.takeWhile isSpace := by
        rw [hrest, List.takeWhile_append, if_neg hlength]
      have hplace : (s.atWord (c :: (word ++ post))).cursor.column = place.column := by
        show (s.cursor.toPlace.behind _).column = _
        rw [hblanks, hcol, Place.column_behind_line, hat.column]
        exact fun c hc => hline c ((List.takeWhile_prefix isSpace).mem hc)
      have hpos : 0 < place.column := by omega
      have hc : c ≠ '#' := by
        rintro rfl
        cases hscalar
      obtain ⟨left, h⟩ := hat.finish?_word hstart hc (hmem c List.mem_cons_self) h
      obtain ⟨next, hnext, h⟩ := Option.bind_eq_some_iff.mp h
      have hne : (s.atWord (c :: (word ++ post))).cursor.column ≠ 0 := by omega
      rw [token?_eq, readerAt_of_scalar? hscalar (hbelow.endsToken_append word) hne hat.outer]
        at hnext
      obtain ⟨scalar, hread, -, hbehind, hfixed⟩ := hat.scalar?_word _ hnext
      -- The scalar is the one of the line alone, as what stands below does not go on with it.
      obtain ⟨hsame, hsamePlain⟩ := scalar?_line hbelow hmem hpos hplace hscalar hread
      obtain ⟨behind, rfl, -⟩ := hfixed.finish? h
      refine ⟨front, behind, hprecedes, ?_⟩
      rw [hbehind, htokens, hsame, hsamePlain, htext, hplain]
      simp

/-- **The entry of a name.** The document of the text is a mapping with this entry. -/
theorem exists_mem_of_name {before value post : List Char} {above : List Token} {text : String}
    {isPlain : Bool} {node : Node} (hbefore : EndsLine {} before)
    (hread : tokens? before = some above) (habove : IsAbove above)
    (hline : ∀ c ∈ value, isBreak c = false) (hblank : endsToken value = true)
    (halone : tokens? (nameKey ++ value) = some (entryTokens text isPlain))
    (hbelow : IsBelow post)
    (h : (tokens? (before ++ (nameKey ++ (value ++ post)))).bind Node.ofTokens? = some node) :
    ∃ entries, node = .mapping entries ∧
      (.scalar "name" true, .scalar text isPlain) ∈ entries := by
  obtain ⟨tokens, htokens, hnode⟩ := Option.bind_eq_some_iff.mp h
  obtain ⟨front, behind, hprecedes, rfl⟩ :=
    exists_eq_of_name hbefore hread habove hline hblank halone hbelow htokens
  have hrecord (hopen : IsOpenRecord front) := hopen.mem hnode
  -- Either the line opens a record, or it goes on with the one that the text above left
  -- open at its end; a text whose record is ended allows no further entry.
  cases habove with
  | nothing =>
      rcases hprecedes with hend | rfl
      · simp at hend
      · exact hrecord (isOpenRecord_opening (.inl rfl))
  | document =>
      rcases hprecedes with hend | rfl
      · have hlast := congrArg List.getLast? hend
        simp at hlast
      · exact hrecord (isOpenRecord_opening (.inr rfl))
  | entries hopen =>
      rcases hprecedes with heq | rfl
      · exact hrecord (List.append_cancel_right heq ▸ hopen)
      · rw [List.append_assoc, List.append_assoc] at hnode
        cases hnode.symm.trans hopen.ofTokens?_closed

/-- No scalar begins with the mark of an anchor or of a tag, so a value that does is not read. -/
theorem tokens?_of_property {before : List Char} {above : List Token} (hbefore : EndsLine {} before)
    (hread : tokens? before = some above) (habove : IsAbove above) (htail : endsToken tail = true)
    (hmark : c = '&' ∨ c = '!') (hvalue : tail.dropWhile isSpace = c :: rest) :
    tokens? (before ++ (nameKey ++ tail)) = none := by
  refine Option.eq_none_iff_forall_ne_some.mpr fun tokens h => ?_
  obtain ⟨s, left, -, -, hat, hrest, -, h⟩ := exists_atValue_below hbefore hread habove htail h
  have hno : c ≠ '#' ∧ isBreak c = false := by rcases hmark with rfl | rfl <;> decide
  obtain ⟨left, h⟩ := hat.finish?_word (hrest ▸ hvalue) hno.1 hno.2 h
  obtain ⟨next, hnext, -⟩ := Option.bind_eq_some_iff.mp h
  have hreader (s : Scan) : readerAt c rest s = scalar? := by
    rcases hmark with rfl | rfl <;>
      simp [readerAt, readerOf, opensDocument, closesDocument, Text.after?]
  rw [token?_eq, hreader] at hnext
  obtain ⟨key, scalar, -, hread, -⟩ := scalar?_eq_some hnext
  have hquotes : c ≠ '\'' ∧ c ≠ '"' := by rcases hmark with rfl | rfl <;> decide
  have hread : Yaml.scalar? (s.atWord (c :: rest)).inFlow (s.atWord (c :: rest)).least
    ⟨_, c :: rest⟩ = some scalar := hread
  have hstart (inFlow : Bool) : startsPlain inFlow (c :: rest) = false := by
    rcases hmark with rfl | rfl <;> rfl
  rw [scalar?_plain hquotes.1 hquotes.2, plain?, hstart] at hread
  cases hread

end CodeFence.Yaml.Token.Scan
