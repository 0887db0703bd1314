import CodeFence.Proofs.YamlTokens

/-!
# The end of a text, and more behind it

A text whose last line has been ended may go on with a key in the first column.  A scan of
the longer text comes to the end of the first one with the same tokens, and has not yet
closed the blocks that the end of the text would close.

* `Shaped`, `Ended` — what a scan looks like between two tokens, and where it is in a text
  whose last line has been ended;
* `tokens_of_atEnd` — at the end the open blocks are closed;
* `token?_withMore` — a token is read the same with more text behind;
* `exists_atEnd` — so the scan of the longer text comes to the end of the first one;
* `getLast?_of_finish?` — a plain scalar at the end of a text is not empty.
-/

namespace CodeFence.Yaml.Token.Scan

variable {s s' : Scan} {c : Char} {cs rest : List Char} {token : Token} {fuel : Nat}

/-! ## The end of a text -/

/-- What a scan looks like between two tokens. -/
structure Shaped (s : Scan) : Prop where
  sorted : s.IsSorted
  head : s.tokens.head? ≠ some .endBlock
  fixed : s.Fixed [] [] 0
  outer : s.outer ≠ [] → ∃ bracket, isOpening bracket = true ∧ s.Fixed [] [bracket] 0

/-- A scan of a text whose last line has been ended. -/
structure Ended (s : Scan) : Prop where
  endsLine : EndsLine s.cursor.toPlace s.cursor.rest
  atEnd : s.cursor.rest = [] → s.outer = [] → s.keyAllowed = true

theorem skipFrom_ends {inFlow keyAllowed : Bool} {place : Place} (inComment : Bool)
    (left : List Char)
    (hends : EndsLine place cs) (hkey : cs = [] → inFlow = false → keyAllowed = true) :
    let found := skipFrom inFlow keyAllowed inComment ⟨place, left⟩ cs
    EndsLine found.1.toPlace found.1.rest ∧
      (found.1.rest = [] → inFlow = false → found.2 = true) := by
  induction cs generalizing keyAllowed inComment place left with
  | nil => exact ⟨hends, fun _ => hkey rfl⟩
  | cons d rest ih =>
      have hrest (hbreak : ¬ isBreak d = true) {p : Prop} : rest = [] → p :=
        fun hnil => absurd hnil (hends.ne_nil hbreak)
      rw [skipFrom]
      split
      · exact ih _ _ hends.after fun _ hflow => by simp [hflow]
      next hbreak =>
      split
      · exact ih _ _ hends.after (hrest hbreak)
      split
      · exact ih _ _ hends.after (hrest hbreak)
      split
      · exact ih _ _ hends.after (hrest hbreak)
      split
      · exact ih _ _ hends.after (hrest hbreak)
      · exact ⟨hends, fun hnil => absurd hnil (List.cons_ne_nil d rest)⟩

/-- A token does not begin with a line break. -/
theorem skipFrom_head {inFlow keyAllowed inComment : Bool} (cur : Cursor)
    (h : (skipFrom inFlow keyAllowed inComment cur cs).1.rest = c :: rest) : isBreak c = false := by
  induction cs generalizing keyAllowed inComment cur with
  | nil => cases h
  | cons d left ih =>
      rw [skipFrom] at h
      split at h
      · exact ih _ h
      next hbreak =>
      split at h
      · exact ih _ h
      split at h
      · exact ih _ h
      split at h
      · exact ih _ h
      split at h
      · exact ih _ h
      · cases h
        exact Bool.eq_false_iff.mpr hbreak

theorem Ended.ready (h : s.Ended) (hready : s.skip.dropStaleKey? = some s') :
    s'.Ended ∧ ∀ c rest, s'.cursor.rest = c :: rest → isBreak c = false := by
  have hflow : s.inFlow = false ↔ s.outer = [] := by simp [inFlow]
  have hends := skipFrom_ends false s.cursor.rest h.endsLine
    fun hnil (hno : s.inFlow = false) => h.atEnd hnil (hflow.mp hno)
  have hskip : s.skip.Ended := ⟨hends.1, fun hnil houter => hends.2 hnil (hflow.mpr houter)⟩
  rcases dropStaleKey?_eq_some hready with rfl | rfl
  · exact ⟨hskip, fun c rest hrest => skipFrom_head _ hrest⟩
  · exact ⟨⟨hskip.endsLine, hskip.atEnd⟩, fun c rest hrest => skipFrom_head _ hrest⟩

theorem tokens_closeBlocks {isKept : Nat → Bool} (houter : s'.outer = s.outer)
    (hcolumns : s'.columns = s.columns) (htokens : s'.tokens = s.tokens) :
    (s'.closeBlocks isKept).tokens = (s.closeBlocks isKept).tokens := by
  by_cases hnil : s.outer = []
  · rw [closeBlocks_eq isKept hnil, closeBlocks_eq isKept (houter.trans hnil)]
    simp only [hcolumns, htokens]
  · rw [closeBlocks_inFlow isKept hnil, closeBlocks_inFlow isKept (houter ▸ hnil), htokens]

/-- A scan at the end of its text closes the blocks that are open. -/
theorem tokens_of_atEnd {tokens : List Token} (hrest : s.cursor.rest = [])
    (h : s.finish? fuel = some tokens) :
    tokens = (s.closeBlocks fun _ => false).tokens.reverse := by
  cases fuel with
  | zero => cases h
  | succ fuel =>
      have hskip : s.skip = s := by
        rw [skip, hrest, skipFrom, ← hrest]
      rw [finish?_succ, hskip] at h
      obtain ⟨ready, hready, h⟩ := Option.bind_eq_some_iff.mp h
      have hready := dropStaleKey?_eq_some hready
      have hcursor : ready.cursor = s.cursor := by rcases hready with rfl | rfl <;> rfl
      rw [proceed?, hcursor, hrest] at h
      obtain ⟨closed, hclosed, rfl⟩ := Option.map_eq_some_iff.mp h
      rw [dropKey?_eq_some hclosed]
      refine congrArg List.reverse (tokens_closeBlocks ?_ ?_ ?_) <;>
        rcases hready with rfl | rfl <;> rfl

/-- In brackets or outside of all blocks nothing is closed at the end. -/
theorem getLast?_of_atEnd {tokens : List Token} (hrest : s.cursor.rest = [])
    (h : s.finish? fuel = some tokens) (hopen : s.outer ≠ [] ∨ s.columns = []) :
    tokens.getLast? = s.tokens.head? := by
  rw [tokens_of_atEnd hrest h, List.getLast?_reverse]
  congr 1
  by_cases houter : s.outer = []
  · rw [closeBlocks_eq _ houter, hopen.resolve_left (not_not_intro houter)]
    rfl
  · rw [closeBlocks_inFlow _ houter]

theorem least_pos (h : s.columns ≠ []) : 0 < s.least := by
  obtain ⟨column, columns, heq⟩ := List.exists_cons_of_ne_nil h
  simp [least, heq]

/-- The latest token is a scalar. -/
def EndsScalar (s : Scan) : Prop :=
  ∃ text isPlain, s.tokens.head? = some (.scalar text isPlain)

/-- Reads a token with more text behind. -/
theorem token?_withMore {d : Char} (hrest : s.cursor.rest = d :: rest) (hbreak : isBreak d = false)
    (hends : EndsLine s.cursor.toPlace s.cursor.rest) (h : token? d rest s = some s')
    (hstop : s'.EndsScalar → s'.cursor.rest = [] → s'.outer = [] ∧ s'.columns ≠ [])
    (hc : isWordStart c = true) (more : List Char) :
    s'.Ended ∧ token? d (rest ++ c :: more) (s.withMore (c :: more)) =
      some (s'.withMore (c :: more)) := by
  rw [hrest] at hends
  rw [token?_eq] at h
  rw [token?_eq, readerAt_withMore hends hbreak]
  -- Only a scalar reads as far as it can; the other tokens have a fixed width.
  rcases readerAt_cases d rest s with
    ⟨hscalar, -⟩ | ⟨taken, behind, heq, hne, htaken, token, -, hreads⟩
  · rw [hscalar] at h ⊢
    obtain ⟨key, scalar, hnote, hread, rfl, -⟩ := scalar?_eq_some h
    rw [← hrest] at hends
    have hstop : scalar.next.rest = [] → s.inFlow = false ∧ 0 < s.least := by
      intro hnil
      obtain ⟨houter, hcolumns⟩ := hstop ⟨_, _, rfl⟩ hnil
      have houter : s.outer = [] := houter
      exact ⟨by simp [inFlow, houter], least_pos hcolumns⟩
    obtain ⟨hscalarEnds, hmore⟩ := scalar?_append hread hends hstop hc more
    refine ⟨⟨hscalarEnds.endsLine, fun hnil _ => hscalarEnds.atEnd hnil⟩, ?_⟩
    rw [scalar?, noteKey?_withMore, hnote]
    exact (congrArg (Option.bind · _) hmore).trans rfl
  · have hwidth : taken.length ≤ s.cursor.rest.length := by simp [hrest, heq]
    obtain ⟨htook, hcursor, hmore⟩ := hreads s hwidth s' h
    refine ⟨?_, hmore _⟩
    rw [heq] at hends
    have hadvance := hends.advance hne htaken s'.cursor.toPlace
    have hbehind : s'.cursor.rest = behind := by
      rw [hcursor, Cursor.advance, hrest, heq, List.drop_left]
    rw [← hbehind] at hadvance
    exact ⟨hadvance.2, fun hnil => absurd hnil hadvance.1⟩

theorem Shaped.ready (h : s.Shaped) (hready : s.skip.dropStaleKey? = some s') : s'.Shaped := by
  have hfixed := h.fixed.ready hready
  rcases dropStaleKey?_eq_some hready with rfl | rfl
  all_goals exact ⟨h.sorted, h.head, hfixed, fun houter =>
    (h.outer houter).imp fun bracket hbracket => ⟨hbracket.1, hbracket.2.ready hready⟩⟩

/-- A token between two others, behind the ends of the blocks that are closed in front of it. -/
theorem Shaped.took (h : s.Shaped) {isKept : Nat → Bool} (htoken : token ≠ .endBlock)
    (htook : Took token (s.closeBlocks isKept) s') : s'.Shaped := by
  have hfixed := htook.fixed (h.fixed.closeBlocks isKept)
  refine ⟨htook.sorted (h.sorted.closeBlocks isKept), ?_, hfixed.mono (List.nil_subset _),
    fun houter => ?_⟩
  · rw [htook.head]
    exact fun heq => htoken (Option.some.inj heq)
  · rcases htook.outer houter with hbefore | hopening
    · rw [outer_closeBlocks] at hbefore
      obtain ⟨bracket, hbracket, hread⟩ := h.outer hbefore
      exact ⟨bracket, hbracket, (htook.fixed (hread.closeBlocks isKept)).mono
        (List.subset_cons_self ..)⟩
    · exact ⟨token, hopening, hfixed⟩

/-- With more text behind, a scan that skips blanks comes to the same place. -/
theorem exists_proceed?_withMore {more : List Char} {tokens : List Token}
    (hends : EndsLine s.cursor.toPlace s.cursor.rest) (hc : isWordStart c = true)
    (hready : s.skip.dropStaleKey? = some s')
    (h : (s.withMore (c :: more)).finish? fuel = some tokens) :
    ∃ left, (s'.withMore (c :: more)).proceed? left = some tokens := by
  cases fuel with
  | zero => cases h
  | succ fuel =>
      rw [finish?_succ, skip_withMore hends hc, dropStaleKey?_withMore, hready, Option.map_some,
        Option.bind_some] at h
      exact ⟨fuel, h⟩

/-- A token in front of the end of a text is read the same with more text behind, unless it is a
scalar at the end that might go on. -/
theorem exists_next_withMore {d : Char} {tokens : List Token} (hrest : s.cursor.rest = d :: rest)
    (hbreak : isBreak d = false) (hended : s.Ended) (hshaped : s.Shaped)
    (h : s.proceed? fuel = some tokens)
    (hlast : ∀ text isPlain, tokens.getLast? ≠ some (.scalar text isPlain))
    (hc : isWordStart c = true) :
    ∃ next : Scan, next.Ended ∧ next.Shaped ∧ next.finish? fuel = some tokens ∧
      ∀ {more : List Char} {left : Nat} {tokens' : List Token},
        (s.withMore (c :: more)).proceed? left = some tokens' →
        (next.withMore (c :: more)).finish? left = some tokens' := by
  rw [proceed?, hrest] at h
  obtain ⟨next, hnext, h⟩ := Option.bind_eq_some_iff.mp h
  have hclosed : (s.closeBlocks fun opened => opened ≤ s.cursor.column).cursor = s.cursor :=
    cursor_closeBlocks _ s
  have hrestClosed := hclosed.symm ▸ hrest
  -- A scalar that ends with the text is not the last token, so a block is still open and its end
  -- comes behind it.
  have hstop : next.EndsScalar → next.cursor.rest = [] →
      next.outer = [] ∧ next.columns ≠ [] := by
    intro hscalar hnil
    obtain ⟨text, isPlain, hscalar⟩ := hscalar
    have hopen (hopen : next.outer ≠ [] ∨ next.columns = []) : False :=
      hlast text isPlain ((getLast?_of_atEnd hnil h hopen).trans hscalar)
    exact ⟨Classical.byContradiction fun hne => hopen (.inl hne), fun hnil => hopen (.inr hnil)⟩
  obtain ⟨token, htoken, htook⟩ := exists_took hrestClosed hnext
  have hstep := token?_withMore hrestClosed hbreak (hclosed.symm ▸ hended.endsLine) hnext hstop hc
  refine ⟨next, (hstep []).1, hshaped.took htoken htook, h, fun {more _ _} hmore => ?_⟩
  have hrestMore : (s.withMore (c :: more)).cursor.rest = d :: (rest ++ c :: more) := by
    simp [withMore, hrest]
  rw [proceed?, hrestMore] at hmore
  obtain ⟨next', hread, hmore⟩ := Option.bind_eq_some_iff.mp hmore
  rw [closeBlocks_withMore] at hread
  rwa [Option.some.inj (hread.symm.trans (hstep more).2)] at hmore

/-- **The end of a text.** With more text behind, a scan comes to the end of the first text as it
does without, unless a scalar at the end might go on. -/
theorem exists_atEnd {tokens : List Token} (h : s.finish? fuel = some tokens) (hended : s.Ended)
    (hshaped : s.Shaped) (hlast : ∀ text isPlain, tokens.getLast? ≠ some (.scalar text isPlain))
    (hc : isWordStart c = true) :
    ∃ e : Scan, e.cursor.rest = [] ∧ e.Ended ∧ e.Shaped ∧
      tokens = (e.closeBlocks fun _ => false).tokens.reverse ∧
      ∀ {more : List Char} {fuel' : Nat} {tokens' : List Token},
        (s.withMore (c :: more)).finish? fuel' = some tokens' →
        ∃ left, (e.withMore (c :: more)).proceed? left = some tokens' := by
  -- Both scans go token by token until the shorter text is used up.
  induction fuel generalizing s with
  | zero => cases h
  | succ fuel ih =>
      rw [finish?_succ] at h
      obtain ⟨ready, hready, h⟩ := Option.bind_eq_some_iff.mp h
      have hends := hended.endsLine
      obtain ⟨hended, hhead⟩ := hended.ready hready
      have hshaped := hshaped.ready hready
      cases hrest : ready.cursor.rest with
      | nil =>
          rw [proceed?, hrest] at h
          obtain ⟨closed, hclosed, rfl⟩ := Option.map_eq_some_iff.mp h
          refine ⟨ready, hrest, hended, hshaped, ?_, exists_proceed?_withMore hends hc hready⟩
          rw [dropKey?_eq_some hclosed]
      | cons d rest =>
          obtain ⟨next, hnextEnded, hnextShaped, h, hnext⟩ :=
            exists_next_withMore hrest (hhead d rest hrest) hended hshaped h hlast hc
          obtain ⟨e, hrestE, hendedE, hshapedE, htokens, hgo⟩ := ih h hnextEnded hnextShaped
          refine ⟨e, hrestE, hendedE, hshapedE, htokens, fun hmore => ?_⟩
          obtain ⟨left, hmore⟩ := exists_proceed?_withMore hends hc hready hmore
          exact hgo (hnext hmore)

/-! ## Scalars that say something -/

/-- A token that is read is no empty plain scalar. -/
theorem head?_of_token? (hrest : s.cursor.rest = c :: rest) (h : token? c rest s = some s') :
    s'.tokens.head? ≠ some (.scalar "" true) := by
  rcases token?_took hrest h with ⟨token, hmark, htook⟩ | ⟨hscalar, hnone⟩
  · rw [htook.head]
    rintro ⟨⟩
    cases hmark
  · obtain ⟨key, scalar, -, hread, -, htook⟩ := scalar?_eq_some hscalar
    rw [htook.head]
    intro heq
    obtain ⟨htext, hplain⟩ := Token.scalar.inj (Option.some.inj heq)
    have hread : Yaml.scalar? s.inFlow s.least ⟨s.cursor.toPlace, s.cursor.rest⟩ = some scalar :=
      hread
    rw [hrest] at hread hnone
    exact scalar?_text_ne_nil hread hnone hplain (String.ofList_inj.mp htext)

/-- **No empty plain scalar** is the last token of a text. -/
theorem getLast?_of_finish? {tokens : List Token} (hhead : s.tokens.head? ≠ some (.scalar "" true))
    (h : s.finish? fuel = some tokens) : tokens.getLast? ≠ some (.scalar "" true) := by
  induction fuel generalizing s with
  | zero => cases h
  | succ fuel ih =>
      rw [finish?_succ] at h
      obtain ⟨ready, hready, h⟩ := Option.bind_eq_some_iff.mp h
      have hhead : ready.tokens.head? ≠ some (.scalar "" true) := by
        rcases dropStaleKey?_eq_some hready with rfl | rfl <;> exact hhead
      cases hrest : ready.cursor.rest with
      | nil =>
          rw [proceed?, hrest] at h
          obtain ⟨closed, hclosed, rfl⟩ := Option.map_eq_some_iff.mp h
          rw [dropKey?_eq_some hclosed, List.getLast?_reverse]
          obtain ⟨ended, heq⟩ := exists_closeBlocks (fun _ => false) ready
          rw [heq]
          cases ended with
          | zero => exact hhead
          | succ ended => exact nofun
      | cons c rest =>
          rw [proceed?, hrest] at h
          obtain ⟨next, hnext, h⟩ := Option.bind_eq_some_iff.mp h
          rw [← cursor_closeBlocks (fun opened => opened ≤ ready.cursor.column) ready] at hrest
          exact ih (head?_of_token? hrest hnext) h

end CodeFence.Yaml.Token.Scan
