import CodeFence.Proofs.YamlEndings

/-!
# The key of a name and its value

In the first column, outside of brackets, the key of a name is a plain scalar with a colon
behind it.  It opens the outermost block unless this is open, and its value begins behind the
blanks that follow.

* `nameKey`, `AtKey`, `AtValue` — the key, and where it and its value may begin;
* `columns_cases` — which blocks are closed in front of a key in the first column;
* `exists_atValue` — a scan comes from the key to the place of its value;
* `AtValue.finish?_word`, `AtValue.finish?_nothing` — what comes there;
* `eq_of_skipFrom_nil` — what stands behind the last token of a line;
* `getLast?_of_nameKey` — between brackets, the tokens of a text that ends with the key end with
  its colon.
-/

namespace CodeFence.Yaml.Token.Scan

variable {s s' : Scan} {c : Char} {cs rest tail : List Char} {fuel : Nat} {tokens : List Token}

/-! ## The key -/

/-- The characters of a name's key. -/
def nameKey : List Char :=
  "name:".toList

/-- Only the outermost of the open blocks can begin in the first column. -/
theorem columns_cases {columns : List Nat} (h : columns.Pairwise (· > ·)) :
    let closed := (columns.takeWhile fun column => !decide (column ≤ 0)).length
    (columns.drop closed = [] ∧ columns.length = closed) ∨
      (columns.drop closed = [0] ∧ columns.length = closed + 1) := by
  induction columns with
  | nil => exact .inl ⟨rfl, rfl⟩
  | cons column outer ih =>
      obtain ⟨hbelow, houter⟩ := List.pairwise_cons.mp h
      by_cases hzero : column ≤ 0
      · have hnone : outer = [] := List.eq_nil_iff_forall_not_mem.mpr fun other hother =>
          Nat.not_lt_zero other (Nat.lt_of_lt_of_le (hbelow other hother) hzero)
        rw [List.takeWhile_cons_of_neg (by simpa using hzero), hnone, Nat.le_zero.mp hzero]
        exact .inr ⟨rfl, rfl⟩
      · rw [List.takeWhile_cons_of_pos (by simpa using hzero)]
        exact (ih houter).imp (fun h => ⟨h.1, congrArg (· + 1) h.2⟩)
          fun h => ⟨h.1, congrArg (· + 1) h.2⟩

/-- Where a key of the outermost block may begin. -/
structure AtKey (s : Scan) : Prop where
  outer : s.outer = []
  keyAllowed : s.keyAllowed = true
  column : s.cursor.column = 0
  columns : s.columns = [] ∨ s.columns = [0]

/-- Where the value of a key of the outermost block may begin. -/
structure AtValue (s : Scan) : Prop where
  outer : s.outer = []
  keyPlace : s.keyPlace = none
  keyAllowed : s.keyAllowed = false
  columns : s.columns = [0]
  column : s.cursor.column = 5

theorem noteKey?_allowed (hkey : s.keyAllowed = true) (h : s.noteKey? = some s') :
    ∃ isRequired, s' = { s with keyPlace := some ⟨s.count, s.cursor.toPlace, isRequired⟩ } := by
  unfold noteKey? at h
  rw [if_pos hkey] at h
  obtain ⟨dropped, hdrop, h⟩ := Option.bind_eq_some_iff.mp h
  obtain rfl := dropKey?_eq_some hdrop
  exact ⟨_, (Option.some.inj h).symm⟩

/-- What ends a token does not go on between brackets. -/
theorem not_flowMark_of_endsToken (htail : endsToken tail = true) :
    tail.head?.any (fun d => isFlowMark d || d = '?') = false := by
  cases tail with
  | nil => rfl
  | cons d rest =>
      have hd : ∀ mark ∈ [',', '[', ']', '\x7b', '\x7d', '?'], d ≠ mark := by
        rintro mark hmark rfl
        simp only [List.mem_cons, List.not_mem_nil, or_false] at hmark
        rcases hmark with rfl | rfl | rfl | rfl | rfl | rfl <;> cases htail
      simp only [List.forall_mem_cons] at hd
      simp [isFlowMark, hd]

/-- The key itself is a plain scalar. -/
theorem scalar?_nameKey (inFlow : Bool) (place : Place) (least : Nat)
    (htail : endsToken tail = true) :
    Yaml.scalar? inFlow least ⟨place, nameKey ++ tail⟩ =
      some ⟨"name".toList, true, false, ⟨place.behind "name".toList, ':' :: tail⟩⟩ := by
  have hspace : isSpace 'n' = false ∧ isSpace 'a' = false ∧ isSpace 'm' = false ∧
    isSpace 'e' = false ∧ isSpace ':' = false := by decide
  have hbreak : isBreak 'n' = false ∧ isBreak 'a' = false ∧ isBreak 'm' = false ∧
    isBreak 'e' = false ∧ isBreak ':' = false := by decide
  have hflow : isFlowMark 'n' = false ∧ isFlowMark 'a' = false ∧ isFlowMark 'm' = false ∧
    isFlowMark 'e' = false := by decide
  have hmark (c : Char) (cs : List Char) (hc : c ≠ '-' ∧ c ≠ '.') :
      isDocumentMark (c :: cs) = false := by
    simp [isDocumentMark, opensDocument, closesDocument, Text.after?, hc.1.symm, hc.2.symm]
  rw [show nameKey = ['n', 'a', 'm', 'e', ':'] from rfl]
  simp only [List.cons_append, List.nil_append]
  rw [scalar?_plain (by decide) (by decide), plain?, if_pos (by rfl)]
  simp [plainAfter, hspace, hbreak, hflow, hmark, Gap.none, Gap.isSome, Gap.hasBreak, Gap.folded,
    htail, not_flowMark_of_endsToken htail, Place.behind]

/-- A scan that has read a name where a key may begin. -/
def named (isRequired : Bool) (tail : List Char) (s : Scan) : Scan :=
  { s with
    tokens := .scalar "name" true :: s.tokens
    count := s.count + 1
    keyPlace := some ⟨s.count, s.cursor.toPlace, isRequired⟩
    cursor := ⟨s.cursor.toPlace.behind "name".toList, ':' :: tail⟩
    keyAllowed := false }

theorem token?_name (hat : s.AtKey) (hrest : s.cursor.rest = nameKey ++ tail)
    (htail : endsToken tail = true) (h : token? 'n' (['a', 'm', 'e', ':'] ++ tail) s = some s') :
    ∃ isRequired, s' = s.named isRequired tail := by
  have hreader : readerAt 'n' (['a', 'm', 'e', ':'] ++ tail) s = scalar? := by
    rw [readerAt, hat.column]
    rfl
  rw [token?_eq, hreader] at h
  obtain ⟨noted, hnote, h⟩ := Option.bind_eq_some_iff.mp h
  obtain ⟨isRequired, rfl⟩ := noteKey?_allowed hat.keyAllowed hnote
  obtain ⟨scalar, hread, h⟩ := Option.bind_eq_some_iff.mp h
  have hflow : s.inFlow = false := by simp [inFlow, hat.outer]
  have hread : Yaml.scalar? s.inFlow s.least ⟨s.cursor.toPlace, s.cursor.rest⟩ = some scalar :=
    hread
  rw [hflow, hrest, scalar?_nameKey _ _ _ htail] at hread
  cases hread
  exact ⟨isRequired, (Option.some.inj h).symm⟩

theorem skip_of_stop (hrest : s.cursor.rest = c :: rest) (hc : isWordStart c = true) :
    s.skip = s := by
  simp only [isWordStart, isSpace, Bool.and_eq_true, Bool.not_eq_true', Bool.or_eq_false_iff,
    decide_eq_true_eq, decide_eq_false_iff_not] at hc
  rw [skip, hrest, skipFrom]
  simp only [hc, ← hrest]
  simp

theorem closeBlocks_of_kept {isKept : Nat → Bool}
    (h : ∀ column ∈ s.columns, isKept column = true) : s.closeBlocks isKept = s := by
  have hnone : (s.columns.takeWhile fun column => !isKept column) = [] := by
    cases hcolumns : s.columns with
    | nil => rfl
    | cons column columns =>
        exact List.takeWhile_cons_of_neg (by simp [h column (by simp [hcolumns])])
  unfold closeBlocks
  rw [hnone]
  split <;> rfl

theorem proceed?_cons (fuel : Nat) (hrest : s.cursor.rest = c :: rest) :
    s.proceed? fuel =
      ((s.closeBlocks fun opened => opened ≤ s.cursor.column).token? c rest).bind
        (finish? fuel) := by
  rw [proceed?, hrest]

theorem proceed?_colon {key : KeyPlace} (fuel : Nat) (hrest : s.cursor.rest = ':' :: tail)
    (htail : endsToken tail = true) (hkey : s.keyPlace = some key)
    (hcol : s.cursor.column ≠ 0) (hkept : ∀ column ∈ s.columns, column ≤ s.cursor.column) :
    s.proceed? fuel =
      finish? fuel { (s.insertKey key).take .colon 1 with
        keyPlace := none, keyAllowed := false } := by
  have hreader : readerAt ':' tail s = colon? := by
    simp [readerAt, readerOf, hcol, htail]
  rw [proceed?_cons fuel hrest, closeBlocks_of_kept fun column hcolumn =>
    decide_eq_true (hkept column hcolumn), token?_eq, hreader, colon?_key hkey, Option.bind_some]

/-- The tokens in front of an entry of the outermost block. -/
def beforeEntry (s : Scan) : List Token :=
  if s.columns = [] then .beginMapping :: s.tokens else s.tokens

theorem dropStaleKey?_named (isRequired : Bool) (tail : List Char) (s : Scan) :
    (s.named isRequired tail).dropStaleKey? = some (s.named isRequired tail) := by
  have hline : (s.cursor.toPlace.behind "name".toList).line = s.cursor.line := rfl
  have hbytes : (s.cursor.toPlace.behind "name".toList).bytes = s.cursor.bytes + 4 := rfl
  refine if_neg ?_
  show ¬ (decide ((s.cursor.toPlace.line < (s.cursor.toPlace.behind "name".toList).line)) ||
    decide (s.cursor.bytes + maxKeyLength < (s.cursor.toPlace.behind "name".toList).bytes)) = true
  rw [hline, hbytes]
  simp [maxKeyLength]

theorem insertKey_named (hat : s.AtKey) (isRequired : Bool) (tail : List Char) :
    ((s.named isRequired tail).insertKey ⟨s.count, s.cursor.toPlace, isRequired⟩).tokens =
        .scalar "name" true :: .key :: s.beforeEntry ∧
      ((s.named isRequired tail).insertKey ⟨s.count, s.cursor.toPlace, isRequired⟩).columns =
        [0] := by
  have htwo : s.count + 1 + 1 - s.count = 2 := by omega
  rcases hat.columns with hcolumns | hcolumns <;>
    simp [insertKey, openBlock, insert, named, inFlow, least, beforeEntry, hat.outer, hat.column,
      hcolumns, htwo]

/-- **A key of the outermost block.** It opens the block unless that is open. -/
theorem exists_atValue (hat : s.AtKey) (hrest : s.cursor.rest = nameKey ++ tail)
    (htail : endsToken tail = true)
    (h : (token? 'n' (['a', 'm', 'e', ':'] ++ tail) s).bind (finish? fuel) = some tokens) :
    ∃ (value : Scan) (left : Nat), value.AtValue ∧ value.cursor.rest = tail ∧
      value.tokens = [.colon, .scalar "name" true, .key] ++ s.beforeEntry ∧
      value.finish? left = some tokens := by
  obtain ⟨next, hname, h⟩ := Option.bind_eq_some_iff.mp h
  obtain ⟨isRequired, rfl⟩ := token?_name hat hrest htail hname
  cases fuel with
  | zero => cases h
  | succ fuel =>
      have hcol : (s.named isRequired tail).cursor.column = s.cursor.column + 4 := rfl
      -- A block that is open began in the first column, so the colon closes none.
      have hkept : ∀ column ∈ (s.named isRequired tail).columns,
          column ≤ (s.named isRequired tail).cursor.column := by
        intro column hcolumn
        have hcolumn : column ∈ s.columns := hcolumn
        rcases hat.columns with hnil | hzero
        · rw [hnil] at hcolumn
          cases hcolumn
        · rw [hzero] at hcolumn
          simp_all
      have hstop : (s.named isRequired tail).cursor.rest = ':' :: tail := rfl
      rw [finish?_succ, skip_of_stop hstop (by decide), dropStaleKey?_named, Option.bind_some,
        proceed?_colon fuel rfl htail rfl (by omega) hkept] at h
      obtain ⟨htokens, hcolumns⟩ := insertKey_named hat isRequired tail
      have hinserted := inserted_insertKey (s := s.named isRequired tail) rfl
      refine ⟨_, fuel, ?_, ?_, congrArg (Token.colon :: ·) htokens, h⟩
      · refine ⟨hinserted.outer.trans hat.outer, rfl, rfl, hcolumns, ?_⟩
        show (Scan.cursor _).column + 1 = 5
        rw [hinserted.cursor, hcol, hat.column]
      · show (Scan.cursor _).rest.drop 1 = tail
        rw [hinserted.cursor]
        rfl

/-! ## The key between brackets -/

theorem outer_colon? (h : s.colon? = some s') : s'.outer = s.outer := by
  cases hkey : s.keyPlace with
  | none =>
      rw [colon?_none hkey] at h
      obtain ⟨opened, hopen, h⟩ := Option.bind_eq_some_iff.mp h
      cases h
      exact (inserted_openAt? hopen).outer
  | some key =>
      rw [colon?_key hkey] at h
      cases h
      exact (inserted_insertKey hkey).outer

/-- Between brackets a colon at the end of a text is its last token. -/
theorem getLast?_of_colon (hrest : s.cursor.rest = [':']) (houter : s.outer ≠ [])
    (h : s.finish? fuel = some tokens) : tokens.getLast? = some .colon := by
  cases fuel with
  | zero => cases h
  | succ fuel =>
      rw [finish?_succ, skip_of_stop hrest (by decide)] at h
      obtain ⟨ready, hready, h⟩ := Option.bind_eq_some_iff.mp h
      have hsame : ready.cursor = s.cursor ∧ ready.outer = s.outer := by
        rcases dropStaleKey?_eq_some hready with rfl | rfl <;> exact ⟨rfl, rfl⟩
      rw [← hsame.1] at hrest
      rw [← hsame.2] at houter
      rw [proceed?_cons fuel hrest, closeBlocks_inFlow _ houter, token?_eq] at h
      have hreader : readerAt ':' [] ready = colon? := by
        simp [readerAt, readerOf, opensDocument, closesDocument, Text.after?, endsToken]
      obtain ⟨next, hnext, h⟩ := Option.bind_eq_some_iff.mp h
      rw [hreader] at hnext
      obtain ⟨htook, hcursor, -⟩ := reads_colon? (by simp [hrest]) next hnext
      have hnil : next.cursor.rest = [] := by simp [hcursor, Cursor.advance, hrest]
      rw [getLast?_of_atEnd hnil h (.inl (outer_colon? hnext ▸ houter)), htook.head]

/-- **A key between brackets** leaves its colon as the last token of a text that ends with it. -/
theorem getLast?_of_nameKey (hrest : s.cursor.rest = nameKey) (hcol : s.cursor.column = 0)
    (houter : s.outer ≠ []) (h : s.proceed? fuel = some tokens) :
    tokens.getLast? = some .colon := by
  have hreader : readerAt 'n' ['a', 'm', 'e', ':'] s = scalar? := by
    rw [readerAt, hcol]
    rfl
  have hstart : s.cursor.rest = 'n' :: ['a', 'm', 'e', ':'] := hrest
  rw [proceed?_cons fuel hstart, closeBlocks_inFlow _ houter, token?_eq, hreader] at h
  obtain ⟨named, hnamed, h⟩ := Option.bind_eq_some_iff.mp h
  obtain ⟨key, scalar, -, hread, hsame, -⟩ := scalar?_eq_some hnamed
  have hread : Yaml.scalar? s.inFlow s.least ⟨s.cursor.toPlace, s.cursor.rest⟩ = some scalar :=
    hread
  rw [hrest, ← List.append_nil nameKey, scalar?_nameKey _ _ _ rfl] at hread
  cases hread
  have hcolon : named.cursor.rest = [':'] := by rw [hsame]
  have hinside : named.outer ≠ [] := by rwa [hsame]
  exact getLast?_of_colon hcolon hinside h

/-! ## The value -/

variable {place : Place} {word : List Char}

theorem skipFrom_word (left : List Char) (hpos : 0 < place.column)
    (hword : cs.dropWhile isSpace = c :: word) (hc : c ≠ '#') (hbreak : isBreak c = false) :
    skipFrom false false false ⟨place, left⟩ cs =
      (⟨place.behind (cs.takeWhile isSpace), c :: word⟩, false) := by
  induction cs generalizing place left with
  | nil => cases hword
  | cons d rest ih =>
      by_cases hspace : isSpace d = true
      · have hno : isBreak d = false := by
          rw [Bool.eq_false_iff]
          exact fun hbreak => by simp [isSpace_of_isBreak hbreak] at hspace
        have hpos' : 0 < (place.after d).column := by simp [Place.after, hno]
        rw [List.dropWhile_cons_of_pos hspace] at hword
        rw [skipFrom, hno, List.takeWhile_cons_of_pos hspace]
        have hblank : (d = ' ' || d = '\t' && (false || !false)) = true := by
          simpa [isSpace] using hspace
        rw [if_neg (by simp), if_neg (by simp), if_pos hblank]
        exact ih _ hpos' hword
      · rw [List.dropWhile_cons_of_neg hspace] at hword
        cases hword
        rw [List.takeWhile_cons_of_neg hspace]
        simp only [isSpace, Bool.or_eq_true, not_or, decide_eq_true_eq] at hspace
        simp [skipFrom, hbreak, hspace.1, hspace.2, hc, Nat.ne_of_gt hpos]
        rfl

/-- Behind a token nothing but blanks and a comment stands on its line. -/
theorem eq_of_skipFrom_nil {inFlow keyAllowed : Bool} (left : List Char) (hpos : 0 < place.column)
    (hline : ∀ c ∈ cs, isBreak c = false)
    (h : (skipFrom inFlow keyAllowed false ⟨place, left⟩ cs).1.rest = []) :
    ∀ c ∈ (cs.dropWhile isSpace).head?, c = '#' := by
  induction cs generalizing place left keyAllowed with
  | nil => nofun
  | cons d rest ih =>
      obtain ⟨hno, hline⟩ := List.forall_mem_cons.mp hline
      have hpos' : 0 < (place.after d).column := by simp [Place.after, hno]
      rw [skipFrom, hno] at h
      simp only [Bool.false_eq_true, if_false] at h
      split at h
      · next hblank =>
          have hspace : isSpace d = true := by
            simp only [Bool.or_eq_true, Bool.and_eq_true, decide_eq_true_eq] at hblank
            rcases hblank with rfl | ⟨rfl, -⟩ <;> rfl
          rw [List.dropWhile_cons_of_pos hspace]
          exact ih _ hpos' hline h
      next hblank =>
      split at h
      · next hmark => simp [Nat.ne_of_gt hpos] at hmark
      split at h
      · next hcomment =>
          subst hcomment
          rintro _ ⟨⟩
          rfl
      · cases h

theorem skipFrom_comment {inFlow keyAllowed : Bool} (left : List Char)
    (hline : ∀ c ∈ cs, isBreak c = false) :
    (skipFrom inFlow keyAllowed true ⟨place, left⟩ cs).1.rest = [] := by
  induction cs generalizing place left with
  | nil => rfl
  | cons d rest ih =>
      obtain ⟨hno, hline⟩ := List.forall_mem_cons.mp hline
      rw [skipFrom, hno]
      exact ih _ hline

theorem skipFrom_nil (left : List Char) (hline : ∀ c ∈ cs, isBreak c = false)
    (h : ∀ c ∈ (cs.dropWhile isSpace).head?, c = '#') :
    (skipFrom false false false ⟨place, left⟩ cs).1.rest = [] := by
  induction cs generalizing place left with
  | nil => rfl
  | cons d rest ih =>
      obtain ⟨hno, hrest⟩ := List.forall_mem_cons.mp hline
      by_cases hspace : isSpace d = true
      · rw [List.dropWhile_cons_of_pos hspace] at h
        have hblank : (d = ' ' || d = '\t' && (false || !false)) = true := by
          simpa [isSpace] using hspace
        rw [skipFrom, hno, if_neg (by simp), if_neg (by simp), if_pos hblank]
        exact ih _ hrest h
      · rw [List.dropWhile_cons_of_neg hspace] at h
        obtain rfl := h d rfl
        exact skipFrom_comment _ hrest

theorem AtValue.columns_kept (h : s.AtValue) (column : Nat) :
    ∀ opened ∈ s.columns, opened ≤ column := by
  rw [h.columns]
  simp

/-- The scan at the word behind some blanks. -/
def atWord (word : List Char) (s : Scan) : Scan :=
  { s with cursor := ⟨s.cursor.toPlace.behind (s.cursor.rest.takeWhile isSpace), word⟩ }

/-- Tokens stay where no key may have begun in front of them. -/
theorem fixed_tokens (hkey : s.keyPlace = none) (houter : s.outer = []) :
    s.Fixed s.tokens [] s.count :=
  ⟨⟨[], rfl, (Nat.zero_add _).symm, List.nil_subset _⟩, by simp [hkey], by simp [houter]⟩

theorem AtValue.fixed_atWord (h : s.AtValue) (word : List Char) :
    (s.atWord word).Fixed s.tokens [] s.count :=
  fixed_tokens (s := s.atWord word) h.keyPlace h.outer

/-- Behind a key the scan comes to the value over the blanks in front of it. -/
theorem AtValue.finish?_word (hat : s.AtValue) (hword : s.cursor.rest.dropWhile isSpace = c :: word)
    (hc : c ≠ '#') (hbreak : isBreak c = false) (h : s.finish? fuel = some tokens) :
    ∃ left, (token? c word (s.atWord (c :: word))).bind (finish? left) = some tokens := by
  cases fuel with
  | zero => cases h
  | succ fuel =>
      have hflow : s.inFlow = false := by simp [inFlow, hat.outer]
      have hskip : s.skip = s.atWord (c :: word) := by
        have hpos : 0 < s.cursor.column := by rw [hat.column]; exact Nat.succ_pos _
        rw [skip, hflow, hat.keyAllowed, atWord]
        simp only [skipFrom_word s.cursor.rest hpos hword hc hbreak, hat.keyAllowed]
      have hstale : s.skip.dropStaleKey? = some s.skip := by
        simp [dropStaleKey?, hskip, atWord, hat.keyPlace]
      rw [finish?_succ, hstale, hskip, Option.bind_some, proceed?_cons fuel rfl,
        closeBlocks_of_kept] at h
      · exact ⟨fuel, h⟩
      · exact fun opened hopened => decide_eq_true (hat.columns_kept _ opened hopened)

/-- Behind a key without a value there is nothing on the line. -/
theorem AtValue.finish?_nothing (hat : s.AtValue) (hline : ∀ c ∈ s.cursor.rest, isBreak c = false)
    (hnone : ∀ c ∈ (s.cursor.rest.dropWhile isSpace).head?, c = '#')
    (h : s.finish? fuel = some tokens) : tokens = (Token.endBlock :: s.tokens).reverse := by
  cases fuel with
  | zero => cases h
  | succ fuel =>
      have hflow : s.inFlow = false := by simp [inFlow, hat.outer]
      have hrest : s.skip.cursor.rest = [] := by
        rw [skip, hflow, hat.keyAllowed]
        exact skipFrom_nil s.cursor.rest hline hnone
      have hstale : s.skip.dropStaleKey? = some s.skip := by
        simp [dropStaleKey?, skip, hat.keyPlace]
      rw [finish?_succ, hstale, Option.bind_some, proceed?, hrest] at h
      obtain ⟨closed, hclosed, rfl⟩ := Option.map_eq_some_iff.mp h
      have houter : s.skip.outer = [] := hat.outer
      have hcolumns : s.skip.columns = [0] := hat.columns
      rw [dropKey?_eq_some hclosed, closeBlocks_eq _ houter, hcolumns]
      rfl

end CodeFence.Yaml.Token.Scan
