import CodeFence.Proofs.YamlScalars
import CodeFence.Yaml.Token

/-!
# Scans of a text that goes on

What a scan does between two tokens is the same with more text behind, if the text so far
leaves no line begun.  And nothing that it does moves the tokens that were there before any
place where a key may still begin: later ones come behind them.

* `proceed?`, `finish?_succ` — what a scan does once blanks have been skipped;
* `closeBlocks_eq`, `exists_closeBlocks` — closing blocks adds their ends;
* `withMore` — the scan of a text with more behind it, and what it shares with the scan of
  the text;
* `Fixed` — tokens that stay, and the steps that keep them;
* `dropKey?_eq_some`, `noteKey?_eq_some` — the places where a key may begin.
-/

namespace CodeFence.Yaml.Token.Scan

variable {s s' : Scan} {c : Char} {cs rest : List Char} {token : Token} {fuel : Nat}

/-! ## One round of a scan -/

/-- What a scan does once the blanks in front have been skipped: it ends, or reads a token. -/
def proceed? (fuel : Nat) (s : Scan) : Option (List Token) :=
  match s.cursor.rest with
  | [] => (s.closeBlocks fun _ => false).dropKey?.map fun s => s.tokens.reverse
  | c :: rest =>
    ((s.closeBlocks fun opened => opened ≤ s.cursor.column).token? c rest).bind (finish? fuel)

theorem finish?_succ (fuel : Nat) (s : Scan) :
    s.finish? (fuel + 1) = s.skip.dropStaleKey?.bind (proceed? fuel) := by
  rw [finish?]
  refine Option.bind_congr fun s _ => ?_
  unfold proceed?
  cases s.cursor.rest with
  | nil => cases (s.closeBlocks fun _ => false).dropKey? <;> rfl
  | cons c rest => rfl

theorem foldl_push (closed : List Nat) (s : Scan) :
    closed.foldl (fun s _ => s.push .endBlock) s =
      { s with
        tokens := List.replicate closed.length .endBlock ++ s.tokens
        count := s.count + closed.length } := by
  induction closed generalizing s with
  | nil => rfl
  | cons column closed ih =>
      rw [List.foldl_cons, ih, push, List.length_cons, List.replicate_succ',
        List.append_assoc, List.singleton_append, Nat.add_right_comm, Nat.add_assoc]

theorem closeBlocks_eq (isKept : Nat → Bool) (houter : s.outer = []) :
    s.closeBlocks isKept =
      { s with
        columns := s.columns.drop (s.columns.takeWhile fun column => !isKept column).length
        tokens := List.replicate (s.columns.takeWhile fun column => !isKept column).length
          .endBlock ++ s.tokens
        count := s.count + (s.columns.takeWhile fun column => !isKept column).length } := by
  have hflow : s.inFlow = false := by simp [inFlow, houter]
  rw [closeBlocks, hflow]
  exact foldl_push ..

theorem closeBlocks_inFlow (isKept : Nat → Bool) (houter : s.outer ≠ []) :
    s.closeBlocks isKept = s := by
  have hflow : s.inFlow = true := by simp [inFlow, houter]
  rw [closeBlocks, hflow]
  rfl

/-- Closing blocks puts their ends behind the tokens. -/
theorem exists_closeBlocks (isKept : Nat → Bool) (s : Scan) : ∃ closed, s.closeBlocks isKept =
    { s with
      columns := s.columns.drop closed
      tokens := List.replicate closed .endBlock ++ s.tokens
      count := s.count + closed } := by
  by_cases houter : s.outer = []
  · exact ⟨_, closeBlocks_eq isKept houter⟩
  · exact ⟨0, closeBlocks_inFlow isKept houter⟩

theorem cursor_closeBlocks (isKept : Nat → Bool) (s : Scan) :
    (s.closeBlocks isKept).cursor = s.cursor := by
  obtain ⟨closed, heq⟩ := exists_closeBlocks isKept s
  rw [heq]

theorem outer_closeBlocks (isKept : Nat → Bool) (s : Scan) :
    (s.closeBlocks isKept).outer = s.outer := by
  obtain ⟨closed, heq⟩ := exists_closeBlocks isKept s
  rw [heq]

/-! ## More text behind -/

/-- The scan of a text with more behind it. -/
def withMore (more : List Char) (s : Scan) : Scan :=
  { s with cursor := { s.cursor with rest := s.cursor.rest ++ more } }

theorem skipFrom_append {inFlow keyAllowed inComment : Bool} {place : Place}
    (left left' : List Char) (hends : EndsLine place cs) (hcomment : cs = [] → inComment = false)
    (hc : isWordStart c = true) (more : List Char) :
    skipFrom inFlow keyAllowed inComment ⟨place, left'⟩ (cs ++ c :: more) =
      let found := skipFrom inFlow keyAllowed inComment ⟨place, left⟩ cs
      ({ found.1 with rest := found.1.rest ++ c :: more }, found.2) := by
  induction cs generalizing keyAllowed inComment place left left' with
  | nil =>
      simp only [isWordStart, isSpace, Bool.and_eq_true, Bool.not_eq_true', Bool.or_eq_false_iff,
        decide_eq_true_eq, decide_eq_false_iff_not] at hc
      simp_all [skipFrom]
  | cons d rest ih =>
      have hrest (b : Bool) (hbreak : ¬ isBreak d = true) : rest = [] → b = false :=
        fun hnil => absurd hnil (hends.ne_nil hbreak)
      rw [List.cons_append, skipFrom, skipFrom]
      split
      · exact ih _ _ hends.after fun _ => rfl
      next hbreak =>
      split
      · exact ih _ _ hends.after (hrest _ hbreak)
      split
      · exact ih _ _ hends.after (hrest _ hbreak)
      split
      · exact ih _ _ hends.after (hrest _ hbreak)
      split
      · exact ih _ _ hends.after (hrest _ hbreak)
      · rfl

theorem skip_withMore (hends : EndsLine s.cursor.toPlace s.cursor.rest)
    (hc : isWordStart c = true) (more : List Char) :
    (s.withMore (c :: more)).skip = s.skip.withMore (c :: more) := by
  have hskip : skipFrom s.inFlow s.keyAllowed false
      ⟨s.cursor.toPlace, s.cursor.rest ++ c :: more⟩ (s.cursor.rest ++ c :: more) = _ :=
    skipFrom_append s.cursor.rest _ hends (fun _ => rfl) hc more
  unfold skip withMore
  exact congrArg (fun found : Cursor × Bool =>
    { s with cursor := found.1, keyAllowed := found.2 }) hskip

theorem dropKey?_withMore (more : List Char) (s : Scan) :
    (s.withMore more).dropKey? = s.dropKey?.map (withMore more) := by
  unfold dropKey? withMore
  split <;> rfl

theorem dropStaleKey?_withMore (more : List Char) (s : Scan) :
    (s.withMore more).dropStaleKey? = s.dropStaleKey?.map (withMore more) := by
  unfold dropStaleKey?
  rw [dropKey?_withMore]
  unfold withMore
  split <;> rfl

theorem noteKey?_withMore (more : List Char) (s : Scan) :
    (s.withMore more).noteKey? = s.noteKey?.map (withMore more) := by
  unfold noteKey?
  rw [dropKey?_withMore]
  cases s.dropKey? <;> unfold withMore <;> split <;> rfl

theorem closeBlocks_withMore (isKept : Nat → Bool) (more : List Char) (s : Scan) :
    (s.withMore more).closeBlocks isKept = (s.closeBlocks isKept).withMore more := by
  by_cases houter : s.outer = []
  · rw [closeBlocks_eq isKept houter, closeBlocks_eq isKept (s := s.withMore more) houter]
    rfl
  · rw [closeBlocks_inFlow isKept houter, closeBlocks_inFlow isKept (s := s.withMore more) houter]

theorem openBlock_withMore (token : Token) (column count : Nat) (more : List Char) (s : Scan) :
    (s.withMore more).openBlock token column count =
      (s.openBlock token column count).withMore more := by
  unfold openBlock
  rw [apply_ite (withMore more)]
  rfl

theorem openAt?_withMore (token : Token) (more : List Char) (s : Scan) :
    (s.withMore more).openAt? token = (s.openAt? token).map (withMore more) := by
  unfold openAt?
  rw [openBlock_withMore, apply_ite (Option.map (withMore more)),
    apply_ite (Option.map (withMore more))]
  rfl

theorem withMore_of_advance {width : Nat} (hwidth : width ≤ s.cursor.rest.length)
    (hcursor : s'.cursor = s.cursor.advance width) (more : List Char) :
    s'.withMore more = { s' with cursor := (s.withMore more).cursor.advance width } := by
  simp only [withMore, hcursor, Cursor.advance, List.drop_append_of_le_length hwidth]

/-! ## What a step leaves as it is -/

/-- Tokens that have been read and stay: later ones come behind them, and those of `base` are
among these. -/
structure Fixed (read base : List Token) (n : Nat) (s : Scan) : Prop where
  tokens : ∃ later, s.tokens = later ++ read ∧ s.count = later.length + n ∧ base ⊆ later
  keyPlace : ∀ key ∈ s.keyPlace, n ≤ key.count
  outer : ∀ place ∈ s.outer, ∀ key ∈ place, n ≤ key.count

variable {read base : List Token} {n count : Nat}

theorem Fixed.push (h : s.Fixed read base n) (token : Token) :
    (s.push token).Fixed read (token :: base) n := by
  obtain ⟨later, htokens, hcount, hbase⟩ := h.tokens
  refine ⟨⟨token :: later, congrArg (token :: ·) htokens, ?_, ?_⟩, h.keyPlace, h.outer⟩
  · rw [Scan.push, hcount, List.length_cons, Nat.add_right_comm]
  · exact List.cons_subset_cons token hbase

theorem Fixed.insert (h : s.Fixed read base n) (added : List Token) (hcount : n ≤ count) :
    (s.insert added count).Fixed read base n := by
  obtain ⟨later, htokens, hlength, hbase⟩ := h.tokens
  have hbehind : s.count - count ≤ later.length := by omega
  refine ⟨⟨later.take (s.count - count) ++ (added.reverse ++ later.drop (s.count - count)),
    ?_, ?_, ?_⟩, h.keyPlace, h.outer⟩
  · simp only [Scan.insert, htokens, List.take_append_of_le_length hbehind,
      List.drop_append_of_le_length hbehind, List.append_assoc]
  · simp only [Scan.insert, List.length_append, List.length_reverse, List.length_take,
      List.length_drop]
    omega
  · intro token htoken
    have hmem := hbase htoken
    rw [← List.take_append_drop (s.count - count) later] at hmem
    simp only [List.mem_append] at hmem ⊢
    exact hmem.imp_right .inr

theorem Fixed.openBlock (h : s.Fixed read base n) (token : Token) (column : Nat)
    (hcount : n ≤ count) : (s.openBlock token column count).Fixed read base n := by
  unfold Scan.openBlock
  split
  · exact ⟨(h.insert [token] hcount).tokens, h.keyPlace, h.outer⟩
  · exact h

theorem Fixed.le_count (h : s.Fixed read base n) : n ≤ s.count := by
  obtain ⟨later, -, hcount, -⟩ := h.tokens
  omega

/-- A key that is given up. -/
theorem dropKey?_eq_some (h : s.dropKey? = some s') : s' = { s with keyPlace := none } := by
  unfold dropKey? at h
  split at h
  · cases h
  · exact (Option.some.inj h).symm

/-- A key that may begin here. -/
theorem noteKey?_eq_some (h : s.noteKey? = some s') :
    ∃ key, s' = { s with keyPlace := key } ∧ (key = s.keyPlace ∨ ∃ place isRequired,
      key = some ⟨s.count, place, isRequired⟩) := by
  unfold noteKey? at h
  split at h
  · obtain ⟨dropped, hdrop, h⟩ := Option.bind_eq_some_iff.mp h
    obtain rfl := dropKey?_eq_some hdrop
    exact ⟨_, (Option.some.inj h).symm, .inr ⟨_, _, rfl⟩⟩
  · exact ⟨s.keyPlace, (Option.some.inj h).symm, .inl rfl⟩

theorem Fixed.closeBlocks (h : s.Fixed read base n) (isKept : Nat → Bool) :
    (s.closeBlocks isKept).Fixed read base n := by
  obtain ⟨closed, heq⟩ := exists_closeBlocks isKept s
  obtain ⟨later, htokens, hcount, hbase⟩ := h.tokens
  rw [heq]
  refine ⟨⟨List.replicate closed .endBlock ++ later, ?_, ?_, ?_⟩, h.keyPlace, h.outer⟩
  · rw [htokens, List.append_assoc]
  · simp only [hcount, List.length_append, List.length_replicate]
    omega
  · exact List.subset_append_of_subset_right _ hbase

theorem Fixed.dropKey (h : s.Fixed read base n) : Fixed read base n { s with keyPlace := none } :=
  ⟨h.tokens, nofun, h.outer⟩

theorem Fixed.noteKey (h : s.Fixed read base n) {key : Option KeyPlace}
    (hkey : key = s.keyPlace ∨ ∃ place isRequired, key = some ⟨s.count, place, isRequired⟩) :
    ∀ noted ∈ key, n ≤ noted.count := by
  rcases hkey with rfl | ⟨place, isRequired, rfl⟩
  · exact h.keyPlace
  · rintro _ ⟨⟩
    exact h.le_count

end CodeFence.Yaml.Token.Scan
