import CodeFence.Yaml.Node

/-!
# The entries of a document

A reader of nodes takes tokens from the front of a row and looks at the first one
behind them, to see whether something goes on.  A key and the end of a block both say
that nothing does.  So what it reads does not depend on which of the two stands there,
on anything behind, or on how much fuel it has left.  If a row of tokens is a block
mapping once its end is put behind it, then the mapping goes on with any further key.

* `Alike` — rows that no reader tells apart by their first token;
* `LocalAt`, `IsLocal` — a reader that looks no further;
* `allLocal` — all readers of nodes are such;
* `exists_blockEntries?` — the entries of a mapping that goes on;
* `IsOpenRecord`, `IsOpenRecord.mem` — a mapping without its end, and the entry that a key
  behind it begins;
* `IsOpenRecord.ofTokens?_closed`, `ofTokens?_closed` — behind its end no other mapping begins;
* `mapping_of_ofTokens?`, `getLast?_of_empty` — what the tokens of a mapping begin or end with, and
  those of a document that says nothing.
-/

namespace CodeFence.Yaml

variable {α β : Type} {fuel : Nat} {tokens rest : List Token}

/-! ## Readers that look one token ahead -/

/-- Two rows that no reader tells apart by their first token: they begin alike, or each
with a key or the end of a block. -/
inductive Alike : List Token → List Token → Prop
  | nil : Alike [] []
  | cons (t : Token) (rest rest' : List Token) : Alike (t :: rest) (t :: rest')
  | keyEnd (rest rest' : List Token) : Alike (.key :: rest) (.endBlock :: rest')
  | endKey (rest rest' : List Token) : Alike (.endBlock :: rest) (.key :: rest')

theorem Alike.refl (tokens : List Token) : Alike tokens tokens := by
  cases tokens with
  | nil => exact .nil
  | cons t rest => exact .cons t rest rest

theorem Alike.append {rest rest' : List Token} (h : Alike rest rest') (used : List Token) :
    Alike (used ++ rest) (used ++ rest') := by
  cases used with
  | nil => exact h
  | cons t used => exact .cons t _ _

/-- A reader with fuel that takes tokens from the front of a row. -/
abbrev Reader (α : Type) :=
  Nat → List Token → Option (α × List Token)

/-- What the reader reads here, it reads with more fuel and before any row that begins
like what is left. -/
def LocalAt (read : Reader α) (fuel : Nat) (tokens : List Token) : Prop :=
  ∀ a rest, read fuel tokens = some (a, rest) → ∃ used, tokens = used ++ rest ∧
    ∀ fuel' ≥ fuel, ∀ rest', Alike rest rest' → read fuel' (used ++ rest') = some (a, rest')

/-- What the reader reads depends on nothing but the first token behind. -/
def IsLocal (read : Reader α) (fuel : Nat) : Prop :=
  ∀ tokens, LocalAt read fuel tokens

variable {read next : Reader α} {t : Token}

theorem LocalAt.of_none (h : read fuel tokens = none) : LocalAt read fuel tokens := by
  intro a rest hread
  rw [h] at hread
  cases hread

/-- A reader that takes nothing. -/
theorem isLocal_pure (a : α) (fuel : Nat) : IsLocal (fun _ tokens => some (a, tokens)) fuel := by
  rintro tokens a rest ⟨⟩
  exact ⟨[], rfl, fun _ _ _ _ => rfl⟩

/-- One reader after the other. -/
theorem IsLocal.bind {first : Reader β} {second : β → Reader α} (hfirst : IsLocal first fuel)
    (hsecond : ∀ b, IsLocal (second b) fuel) :
    IsLocal (fun fuel tokens => (first fuel tokens).bind fun p => second p.1 fuel p.2) fuel := by
  intro tokens a rest hread
  obtain ⟨⟨b, middle⟩, hb, ha⟩ := Option.bind_eq_some_iff.mp hread
  obtain ⟨used, rfl, hused⟩ := hfirst tokens b middle hb
  obtain ⟨more, rfl, hmore⟩ := hsecond b middle a rest ha
  refine ⟨used ++ more, (List.append_assoc ..).symm, fun fuel' hle rest' hrest => ?_⟩
  dsimp only
  rw [List.append_assoc, hused fuel' hle _ (hrest.append more)]
  exact hmore fuel' hle rest' hrest

/-- The reader takes a token and goes on as another one, perhaps with less fuel. -/
theorem LocalAt.of_token (spent : Nat) (hnext : LocalAt next fuel tokens)
    (heq : ∀ n rest, read (n + spent) (t :: rest) = next n rest) :
    LocalAt read (fuel + spent) (t :: tokens) := by
  intro a rest hread
  rw [heq] at hread
  obtain ⟨used, rfl, hused⟩ := hnext a rest hread
  refine ⟨t :: used, rfl, fun fuel' hle rest' hrest => ?_⟩
  obtain ⟨n, rfl⟩ := Nat.exists_eq_add_of_le' (Nat.le_trans (Nat.le_add_left spent fuel) hle)
  rw [List.cons_append, heq]
  exact hused n (Nat.le_of_add_le_add_right hle) rest' hrest

/-- The reader goes on as another one in all rows that begin like this one. -/
theorem LocalAt.of_alike (spent : Nat) (hnext : LocalAt next fuel tokens)
    (heq : ∀ n row, Alike tokens row → read (n + spent) row = next n row) :
    LocalAt read (fuel + spent) tokens := by
  intro a rest hread
  rw [heq fuel tokens (Alike.refl tokens)] at hread
  obtain ⟨used, rfl, hused⟩ := hnext a rest hread
  refine ⟨used, rfl, fun fuel' hle rest' hrest => ?_⟩
  obtain ⟨n, rfl⟩ := Nat.exists_eq_add_of_le' (Nat.le_trans (Nat.le_add_left spent fuel) hle)
  rw [heq n _ (hrest.append used)]
  exact hused n (Nat.le_of_add_le_add_right hle) rest' hrest

/-- The reader takes nothing from rows like this one. -/
theorem LocalAt.of_pure (a : α)
    (heq : ∀ n row, Alike tokens row → read (n + 1) row = some (a, row)) :
    LocalAt read (fuel + 1) tokens :=
  .of_alike 1 (isLocal_pure a fuel tokens) heq

/-! ## The readers of nodes -/

/-- All readers of nodes look no further than one token. -/
structure AllLocal (fuel : Nat) : Prop where
  node : ∀ inMapping, IsLocal (node? · inMapping) fuel
  optionalNode : ∀ inMapping, IsLocal (optionalNode? · inMapping) fuel
  value : ∀ inMapping, IsLocal (value? · inMapping) fuel
  blockItems : ∀ done, IsLocal (blockItems? · done) fuel
  looseItems : ∀ done, IsLocal (looseItems? · done) fuel
  blockEntries : ∀ done, IsLocal (blockEntries? · done) fuel
  listItem : IsLocal listItem? fuel
  listItems : ∀ done, IsLocal (listItems? · done) fuel
  recordEntry : IsLocal recordEntry? fuel
  recordEntries : ∀ done, IsLocal (recordEntries? · done) fuel

theorem allLocal_zero : AllLocal 0 := by
  constructor <;> intros <;> intro _ _ _ h <;> cases h

section Reading

variable (h : AllLocal fuel)

include h

theorem AllLocal.node_succ (inMapping : Bool) : IsLocal (node? · inMapping) (fuel + 1) := by
  intro tokens
  cases tokens with
  | nil => exact .of_none rfl
  | cons t rest =>
      cases t with
      | scalar text isPlain => exact .of_token 1 (isLocal_pure _ fuel rest) fun _ _ => rfl
      | openList => exact .of_token 1 (h.listItems [] rest) fun _ _ => rfl
      | openRecord => exact .of_token 1 (h.recordEntries [] rest) fun _ _ => rfl
      | beginSequence => exact .of_token 1 (h.blockItems [] rest) fun _ _ => rfl
      | beginMapping => exact .of_token 1 (h.blockEntries [] rest) fun _ _ => rfl
      | dash =>
          cases inMapping with
          | true => exact .of_alike 1 (h.looseItems [] _) fun _ _ hrow => by cases hrow; rfl
          | false => exact .of_none rfl
      | _ => exact .of_none rfl

theorem AllLocal.optionalNode_succ (inMapping : Bool) :
    IsLocal (optionalNode? · inMapping) (fuel + 1) := by
  intro tokens
  cases tokens with
  | nil => exact .of_alike 1 (h.node inMapping []) fun _ _ hrow => by cases hrow; rfl
  | cons t rest =>
      cases t with
      | dash =>
          cases inMapping with
          | true => exact .of_alike 1 (h.node true _) fun _ _ hrow => by cases hrow; rfl
          | false => exact .of_pure Node.empty fun _ _ hrow => by cases hrow; rfl
      | key | endBlock | colon | comma | closeList | closeRecord =>
          exact .of_pure Node.empty fun _ _ hrow => by cases hrow <;> rfl
      | _ => exact .of_alike 1 (h.node inMapping _) fun _ _ hrow => by cases hrow; rfl

theorem AllLocal.value_succ (inMapping : Bool) : IsLocal (value? · inMapping) (fuel + 1) := by
  intro tokens
  cases tokens with
  | nil => exact .of_pure Node.empty fun _ _ hrow => by cases hrow; rfl
  | cons t rest =>
      cases t with
      | colon => exact .of_token 1 (h.optionalNode inMapping rest) fun _ _ => rfl
      | _ => exact .of_pure Node.empty fun _ _ hrow => by cases hrow <;> rfl

theorem AllLocal.blockItems_succ (done : List Node) : IsLocal (blockItems? · done) (fuel + 1) := by
  intro tokens
  cases tokens with
  | nil => exact .of_none rfl
  | cons t rest =>
      cases t with
      | dash =>
          have hitems := (h.optionalNode false).bind fun item => h.blockItems (item :: done)
          exact .of_token 1 (hitems rest) fun _ _ => rfl
      | endBlock => exact .of_token 1 (isLocal_pure _ fuel rest) fun _ _ => rfl
      | _ => exact .of_none rfl

theorem AllLocal.looseItems_succ (done : List Node) : IsLocal (looseItems? · done) (fuel + 1) := by
  intro tokens
  cases tokens with
  | nil => exact .of_pure (.sequence done.reverse) fun _ _ hrow => by cases hrow; rfl
  | cons t rest =>
      cases t with
      | dash =>
          have hitems := (h.optionalNode false).bind fun item => h.looseItems (item :: done)
          exact .of_token 1 (hitems rest) fun _ _ => rfl
      | _ => exact .of_pure (.sequence done.reverse) fun _ _ hrow => by cases hrow <;> rfl

/-- Reads a key and its value, behind the token that stands in front of the key. -/
def blockPair? : Reader (Node × Node) := fun fuel tokens =>
  (optionalNode? fuel true tokens).bind fun key =>
    (value? fuel true key.2).bind fun value => some ((key.1, value.1), value.2)

omit h in
theorem blockEntries?_key (fuel : Nat) (done : List (Node × Node)) (rest : List Token) :
    blockEntries? (fuel + 1) done (.key :: rest) =
      (blockPair? fuel rest).bind fun entry => blockEntries? fuel (entry.1 :: done) entry.2 := by
  rw [blockPair?, Option.bind_assoc]
  exact Option.bind_congr fun key _ => by rw [Option.bind_assoc]; rfl

theorem AllLocal.blockPair : IsLocal blockPair? fuel :=
  (h.optionalNode true).bind fun key => (h.value true).bind fun value =>
    isLocal_pure (key, value) fuel

theorem AllLocal.blockEntries_succ (done : List (Node × Node)) :
    IsLocal (blockEntries? · done) (fuel + 1) := by
  intro tokens
  cases tokens with
  | nil => exact .of_none rfl
  | cons t rest =>
      cases t with
      | key =>
          have hentries := h.blockPair.bind fun entry => h.blockEntries (entry :: done)
          exact .of_token 1 (hentries rest) fun fuel rest => blockEntries?_key fuel done rest
      | endBlock => exact .of_token 1 (isLocal_pure _ fuel rest) fun _ _ => rfl
      | _ => exact .of_none rfl

/-- Reads a key in a sequence in brackets, or the mark in its place. -/
def listKey? : Reader Node := fun fuel tokens =>
  match tokens with
  | .colon :: rest | .comma :: rest | .closeList :: rest => some (.empty, rest)
  | _ => node? fuel false tokens

theorem AllLocal.listKey : IsLocal listKey? fuel := by
  intro tokens
  have hnode := h.node false tokens
  cases tokens with
  | nil => exact .of_alike 0 hnode fun _ _ hrow => by cases hrow; rfl
  | cons t rest =>
      cases t with
      | colon | comma | closeList =>
          exact .of_token 0 (isLocal_pure Node.empty fuel rest) fun _ _ => rfl
      | _ => exact .of_alike 0 hnode fun _ _ hrow => by cases hrow <;> rfl

theorem AllLocal.listItem_succ : IsLocal listItem? (fuel + 1) := by
  intro tokens
  have hnode := h.node false tokens
  cases tokens with
  | nil => exact .of_alike 1 hnode fun _ _ hrow => by cases hrow; rfl
  | cons t rest =>
      cases t with
      | key =>
          have hpair := h.listKey.bind fun key => (h.value false).bind fun value =>
            isLocal_pure (Node.mapping [(key, value)]) fuel
          refine .of_token 1 (hpair rest) fun n rest => ?_
          unfold listKey?
          cases rest with
          | nil => rfl
          | cons t rest => cases t <;> rfl
      | endBlock => exact .of_none (by cases fuel <;> rfl)
      | _ => exact .of_alike 1 hnode fun _ _ hrow => by cases hrow; rfl

/-- Reads on behind an item of a sequence in brackets. -/
def afterItem? (done : List Node) (item : Node) : Reader Node := fun fuel tokens =>
  match tokens with
  | .comma :: rest => listItems? fuel (item :: done) rest
  | .closeList :: rest => some (.sequence (item :: done).reverse, rest)
  | _ => none

theorem AllLocal.afterItem (done : List Node) (item : Node) :
    IsLocal (afterItem? done item) fuel := by
  intro tokens
  cases tokens with
  | nil => exact .of_none rfl
  | cons t rest =>
      cases t with
      | comma => exact .of_token 0 (h.listItems (item :: done) rest) fun _ _ => rfl
      | closeList => exact .of_token 0 (isLocal_pure _ fuel rest) fun _ _ => rfl
      | _ => exact .of_none rfl

theorem AllLocal.listItems_succ (done : List Node) : IsLocal (listItems? · done) (fuel + 1) := by
  intro tokens
  have hitems := h.listItem.bind (h.afterItem done) tokens
  cases tokens with
  | nil => exact .of_alike 1 hitems fun _ _ hrow => by cases hrow; rfl
  | cons t rest =>
      cases t with
      | closeList => exact .of_token 1 (isLocal_pure _ fuel rest) fun _ _ => rfl
      | key | endBlock => exact .of_alike 1 hitems fun _ _ hrow => by cases hrow <;> rfl
      | _ => exact .of_alike 1 hitems fun _ _ hrow => by cases hrow; rfl

theorem AllLocal.recordEntry_succ : IsLocal recordEntry? (fuel + 1) := by
  intro tokens
  have hnode := (h.node false).bind (fun key => isLocal_pure (key, Node.empty) fuel) tokens
  cases tokens with
  | nil => exact .of_alike 1 hnode fun _ _ hrow => by cases hrow; rfl
  | cons t rest =>
      cases t with
      | key =>
          have hpair := (h.optionalNode false).bind fun key => (h.value false).bind fun value =>
            isLocal_pure (key, value) fuel
          exact .of_token 1 (hpair rest) fun _ _ => rfl
      | endBlock => exact .of_none (by cases fuel <;> rfl)
      | _ => exact .of_alike 1 hnode fun _ _ hrow => by cases hrow; rfl

/-- Reads on behind an entry of a mapping in brackets. -/
def afterPair? (done : List (Node × Node)) (entry : Node × Node) : Reader Node :=
  fun fuel tokens =>
    match tokens with
    | .comma :: rest => recordEntries? fuel (entry :: done) rest
    | .closeRecord :: rest => some (.mapping (entry :: done).reverse, rest)
    | _ => none

theorem AllLocal.afterPair (done : List (Node × Node)) (entry : Node × Node) :
    IsLocal (afterPair? done entry) fuel := by
  intro tokens
  cases tokens with
  | nil => exact .of_none rfl
  | cons t rest =>
      cases t with
      | comma => exact .of_token 0 (h.recordEntries (entry :: done) rest) fun _ _ => rfl
      | closeRecord => exact .of_token 0 (isLocal_pure _ fuel rest) fun _ _ => rfl
      | _ => exact .of_none rfl

theorem AllLocal.recordEntries_succ (done : List (Node × Node)) :
    IsLocal (recordEntries? · done) (fuel + 1) := by
  intro tokens
  have hentries := h.recordEntry.bind (h.afterPair done) tokens
  cases tokens with
  | nil => exact .of_alike 1 hentries fun _ _ hrow => by cases hrow; rfl
  | cons t rest =>
      cases t with
      | closeRecord => exact .of_token 1 (isLocal_pure _ fuel rest) fun _ _ => rfl
      | key | endBlock => exact .of_alike 1 hentries fun _ _ hrow => by cases hrow <;> rfl
      | _ => exact .of_alike 1 hentries fun _ _ hrow => by cases hrow; rfl

end Reading

/-- **One token ahead.** No reader of nodes looks further. -/
theorem allLocal : ∀ fuel, AllLocal fuel
  | 0 => allLocal_zero
  | fuel + 1 =>
    let h := allLocal fuel
    ⟨h.node_succ, h.optionalNode_succ, h.value_succ, h.blockItems_succ, h.looseItems_succ,
      h.blockEntries_succ, h.listItem_succ, h.listItems_succ, h.recordEntry_succ,
      h.recordEntries_succ⟩

/-! ## The entries of a block mapping -/

variable {done entries : List (Node × Node)} {before next more : List Token} {node : Node}

/-- What is left of a row is a row before the same last token. -/
theorem exists_eq_of_concat {used middle : List Token} {last : Token}
    (h : before ++ [last] = used ++ middle) (hmiddle : middle ≠ []) :
    ∃ left, before = used ++ left ∧ middle = left ++ [last] := by
  rcases List.append_eq_append_iff.mp h with ⟨beyond, rfl, hlast⟩ | ⟨left, hbefore, hleft⟩
  · cases beyond with
    | nil => exact ⟨[], (List.append_nil _).symm.trans (List.append_nil _).symm, hlast.symm⟩
    | cons t beyond =>
        have hempty : beyond ++ middle = [] := ((List.cons.inj hlast).2).symm
        exact absurd (List.append_eq_nil_iff.mp hempty).2 hmiddle
  · exact ⟨left, hbefore, hleft⟩

theorem blockEntries?_nil (fuel : Nat) (done : List (Node × Node)) :
    blockEntries? fuel done [] = none := by
  cases fuel <;> rfl

/-- **Going on.** Where the end of a block mapping stands, a further key may stand as well:
the reader comes there with the same entries. -/
theorem exists_blockEntries? (h : blockEntries? fuel done (before ++ [.endBlock]) = some (node, []))
    {fuel' : Nat} (hle : fuel ≤ fuel') (hnext : Alike [.endBlock] next) :
    ∃ left done', blockEntries? fuel' done (before ++ next) =
      blockEntries? (left + 1) done' next := by
  -- Each entry is read as before, as it does not look behind its own tokens.
  induction fuel generalizing done before fuel' with
  | zero => cases h
  | succ fuel ih =>
      obtain ⟨n, rfl⟩ := Nat.exists_eq_add_of_le' (Nat.le_trans (Nat.le_add_left 1 fuel) hle)
      cases before with
      | nil => exact ⟨n, done, rfl⟩
      | cons t before =>
          cases t with
          | key =>
              rw [List.cons_append, blockEntries?_key] at h
              obtain ⟨⟨entry, middle⟩, hentry, hrest⟩ := Option.bind_eq_some_iff.mp h
              obtain ⟨used, heq, hused⟩ := (allLocal fuel).blockPair _ _ _ hentry
              have hmiddle : middle ≠ [] := by
                rintro rfl
                rw [blockEntries?_nil] at hrest
                cases hrest
              obtain ⟨behind, rfl, rfl⟩ := exists_eq_of_concat heq hmiddle
              have hn : fuel ≤ n := Nat.le_of_succ_le_succ hle
              obtain ⟨left, done', hgo⟩ := ih hrest hn
              refine ⟨left, done', ?_⟩
              rw [List.cons_append, blockEntries?_key, List.append_assoc,
                hused n hn _ (hnext.append behind)]
              exact hgo
          | endBlock =>
              have hleft : before ++ [.endBlock] = [] := (Prod.mk.inj (Option.some.inj h)).2
              exact absurd hleft (List.append_ne_nil_of_right_ne_nil _ (List.cons_ne_nil _ _))
          | _ => cases h

/-- The entries that have been read are entries of the mapping. -/
theorem mem_of_blockEntries? (h : blockEntries? fuel done tokens = some (node, rest)) :
    ∃ entries, node = .mapping entries ∧ ∀ entry ∈ done, entry ∈ entries := by
  induction fuel generalizing done tokens with
  | zero => cases h
  | succ fuel ih =>
      cases tokens with
      | nil => cases h
      | cons t tokens =>
          cases t with
          | key =>
              rw [blockEntries?_key] at h
              obtain ⟨entry, -, hrest⟩ := Option.bind_eq_some_iff.mp h
              obtain ⟨entries, rfl, hmem⟩ := ih hrest
              exact ⟨entries, rfl, fun e he => hmem e (List.mem_cons_of_mem _ he)⟩
          | endBlock =>
              cases h
              exact ⟨done.reverse, rfl, fun e he => List.mem_reverse.mpr he⟩
          | _ => cases h

/-- A block mapping ends with its token. -/
theorem exists_eq_of_blockEntries? (h : blockEntries? fuel done tokens = some (node, rest)) :
    ∃ used, tokens = used ++ .endBlock :: rest := by
  induction fuel generalizing done tokens with
  | zero => cases h
  | succ fuel ih =>
      cases tokens with
      | nil => cases h
      | cons t tokens =>
          cases t with
          | key =>
              rw [blockEntries?_key] at h
              obtain ⟨⟨entry, middle⟩, hentry, hrest⟩ := Option.bind_eq_some_iff.mp h
              obtain ⟨used, rfl, -⟩ := (allLocal fuel).blockPair _ _ _ hentry
              obtain ⟨later, rfl⟩ := ih hrest
              exact ⟨.key :: (used ++ later), by simp⟩
          | endBlock =>
              cases h
              exact ⟨[], rfl⟩
          | _ => cases h

/-- Two scalars with the marks of a key and a value are an entry. -/
theorem eq_of_blockPair? {key value : String} {keyPlain valuePlain : Bool}
    {entry : Node × Node}
    (h : blockPair? fuel (.scalar key keyPlain :: .colon :: .scalar value valuePlain :: more) =
      some (entry, rest)) :
    entry = (.scalar key keyPlain, .scalar value valuePlain) ∧ rest = more := by
  match fuel, h with
  | 0, h | 1, h | 2, h => cases h
  | fuel + 3, h => cases h; exact ⟨rfl, rfl⟩

/-! ## Other collections -/

/-- The items of a block sequence are a sequence. -/
theorem exists_sequence_of_blockItems? {items : List Node}
    (h : blockItems? fuel items tokens = some (node, rest)) : ∃ items, node = .sequence items := by
  induction fuel generalizing items tokens with
  | zero => cases h
  | succ fuel ih =>
      cases tokens with
      | nil => cases h
      | cons t tokens =>
          cases t with
          | dash =>
              obtain ⟨⟨item, middle⟩, -, h⟩ := Option.bind_eq_some_iff.mp h
              exact ih h
          | endBlock =>
              cases h
              exact ⟨_, rfl⟩
          | _ => cases h

theorem listItem?_nil (fuel : Nat) : listItem? fuel [] = none := by
  match fuel with
  | 0 | 1 | _ + 2 => rfl

theorem listItems?_succ (fuel : Nat) (items : List Node) {t : Token} (ht : t ≠ .closeList)
    (tokens : List Token) : listItems? (fuel + 1) items (t :: tokens) =
      (listItem? fuel (t :: tokens)).bind fun item => afterItem? items item.1 fuel item.2 := by
  cases t <;> first | rfl | exact absurd rfl ht

/-- The items between brackets are a sequence. -/
theorem exists_sequence_of_listItems? {items : List Node}
    (h : listItems? fuel items tokens = some (node, rest)) : ∃ items, node = .sequence items := by
  induction fuel generalizing items tokens with
  | zero => cases h
  | succ fuel ih =>
      cases tokens with
      | nil =>
          obtain ⟨item, hitem, -⟩ := Option.bind_eq_some_iff.mp h
          cases (listItem?_nil fuel).symm.trans hitem
      | cons t tokens =>
          by_cases ht : t = .closeList
          · subst ht
            cases h
            exact ⟨_, rfl⟩
          rw [listItems?_succ fuel items ht] at h
          obtain ⟨⟨item, middle⟩, -, h⟩ := Option.bind_eq_some_iff.mp h
          unfold afterItem? at h
          split at h
          · exact ih h
          · cases h
            exact ⟨_, rfl⟩
          · cases h

theorem recordEntry?_nil (fuel : Nat) : recordEntry? fuel [] = none := by
  match fuel with
  | 0 | 1 | _ + 2 => rfl

theorem recordEntries?_succ (fuel : Nat) (done : List (Node × Node)) {t : Token}
    (ht : t ≠ .closeRecord) (tokens : List Token) :
    recordEntries? (fuel + 1) done (t :: tokens) =
      recordEntry? fuel (t :: tokens) >>= fun entry => afterPair? done entry.1 fuel entry.2 := by
  cases t <;> first | rfl | exact absurd rfl ht

/-- The entries between brackets are a mapping, which ends with the closing one. -/
theorem mapping_of_recordEntries? (h : recordEntries? fuel done tokens = some (node, rest)) :
    (∃ entries, node = .mapping entries) ∧ ∃ used, tokens = used ++ .closeRecord :: rest := by
  induction fuel generalizing done tokens with
  | zero => cases h
  | succ fuel ih =>
      cases tokens with
      | nil =>
          obtain ⟨entry, hentry, -⟩ := Option.bind_eq_some_iff.mp h
          cases (recordEntry?_nil fuel).symm.trans hentry
      | cons t tokens =>
          by_cases ht : t = .closeRecord
          · subst ht
            cases h
            exact ⟨⟨_, rfl⟩, [], rfl⟩
          rw [recordEntries?_succ fuel done ht] at h
          obtain ⟨⟨entry, middle⟩, hentry, h⟩ := Option.bind_eq_some_iff.mp h
          obtain ⟨used, heq, -⟩ := (allLocal fuel).recordEntry _ _ _ hentry
          rw [heq]
          dsimp only [afterPair?] at h
          split at h
          · obtain ⟨hmapping, later, rfl⟩ := ih h
            exact ⟨hmapping, used ++ .comma :: later, by simp⟩
          · cases h
            exact ⟨⟨_, rfl⟩, used, rfl⟩
          · cases h

/-! ## Documents -/

/-- The entries of a document that is a block mapping, behind the token that opens it. -/
def entries? (tokens : List Token) : Option Node :=
  (blockEntries? (4 * tokens.length + 7) [] tokens).bind fun p =>
    if isFinished p.2 then some p.1 else none

/-- The tokens in front of the entries of a document. -/
def IsOpening (start : List Token) : Prop :=
  start = [.beginMapping] ∨ start = [.beginDocument, .beginMapping]

theorem ofTokens?_opening {start : List Token} (hstart : IsOpening start) (tokens : List Token) :
    Node.ofTokens? (start ++ tokens) = entries? tokens := by
  rcases hstart with rfl | rfl <;> rfl

/-- A block mapping without its end: the tokens are a document once the end is put behind. -/
def IsOpenRecord (tokens : List Token) : Prop :=
  ∃ start before, IsOpening start ∧ tokens = start ++ before ∧
    (entries? (before ++ [.endBlock])).isSome

/-- A mapping without entries. -/
theorem isOpenRecord_opening {start : List Token} (hstart : IsOpening start) :
    IsOpenRecord start :=
  ⟨start, [], hstart, (List.append_nil _).symm, rfl⟩

/-- A document that begins like an open mapping is read like it down to there. -/
theorem IsOpenRecord.exists_read (hopen : IsOpenRecord tokens) (hnext : Alike [.endBlock] next)
    (h : Node.ofTokens? (tokens ++ next) = some node) :
    ∃ left done rest, blockEntries? (left + 1) done next = some (node, rest) ∧
      isFinished rest := by
  obtain ⟨start, before, hstart, rfl, hsome⟩ := hopen
  rw [List.append_assoc, ofTokens?_opening hstart] at h
  obtain ⟨closed, hclosed⟩ := Option.isSome_iff_exists.mp hsome
  obtain ⟨⟨whole, beyond⟩, hwhole, hover⟩ := Option.bind_eq_some_iff.mp hclosed
  obtain ⟨⟨node', rest⟩, hread, hrest⟩ := Option.bind_eq_some_iff.mp h
  have hnone : beyond = [] := by
    cases beyond with
    | nil => rfl
    | cons t beyond =>
        obtain ⟨used, heq, -⟩ := (allLocal _).blockEntries [] _ _ _ hwhole
        obtain ⟨left, -, hleft⟩ := exists_eq_of_concat heq (List.cons_ne_nil t beyond)
        simp [hleft, isFinished] at hover
  subst hnone
  have hle : 4 * (before ++ [Token.endBlock]).length + 7 ≤ 4 * (before ++ next).length + 7 := by
    have : 1 ≤ next.length := by cases hnext <;> exact Nat.le_add_left 1 _
    simp only [List.length_append, List.length_singleton]
    omega
  obtain ⟨left, done, hgo⟩ := exists_blockEntries? hwhole hle hnext
  rw [hgo] at hread
  split at hrest
  · cases hrest
    exact ⟨left, done, rest, hread, ‹_›⟩
  · cases hrest

/-- **The entry of a key.** A key and a value behind an open mapping are an entry of it. -/
theorem IsOpenRecord.mem {key value : String} {keyPlain valuePlain : Bool}
    (hopen : IsOpenRecord tokens)
    (h : Node.ofTokens? (tokens ++ .key :: .scalar key keyPlain :: .colon ::
      .scalar value valuePlain :: more) = some node) :
    ∃ entries, node = .mapping entries ∧
      (.scalar key keyPlain, .scalar value valuePlain) ∈ entries := by
  obtain ⟨left, done, rest, hread, -⟩ := hopen.exists_read (.endKey ..) h
  rw [blockEntries?_key] at hread
  obtain ⟨⟨entry, middle⟩, hentry, hbehind⟩ := Option.bind_eq_some_iff.mp hread
  obtain ⟨rfl, rfl⟩ := eq_of_blockPair? hentry
  obtain ⟨entries, rfl, hmem⟩ := mem_of_blockEntries? hbehind
  exact ⟨entries, rfl, hmem _ List.mem_cons_self⟩

/-- Behind the end of the mapping there is only the end of the document. -/
theorem IsOpenRecord.ofTokens?_closed (hopen : IsOpenRecord tokens) :
    Node.ofTokens? (tokens ++ .endBlock :: .beginMapping :: more) = none := by
  refine Option.eq_none_iff_forall_ne_some.mpr fun node hnode => ?_
  obtain ⟨left, done, rest, hread, hrest⟩ := hopen.exists_read (.cons ..) hnode
  cases hread
  cases hrest

/-! ## Documents that a key goes on with -/

/-- Behind a document only the marks of its end are left, so its last token is the one in front of
them or such a mark. -/
theorem getLast?_of_isFinished (t : Token) (used : List Token) (h : isFinished rest = true) :
    (used ++ t :: rest).getLast? = some t ∨ (used ++ t :: rest).getLast? = some .endDocument := by
  cases hrest : rest.getLast? with
  | none =>
      rw [List.getLast?_eq_none_iff.mp hrest]
      exact .inl List.getLast?_concat
  | some last =>
      have hlast : last = .endDocument := by
        have hall := List.all_eq_true.mp h last (List.mem_of_getLast? hrest)
        cases last <;> first | rfl | cases hall
      rw [List.getLast?_append, List.getLast?_cons, hrest, hlast]
      exact .inr rfl

theorem getLast?_of_entries? (h : entries? tokens = some node) :
    tokens.getLast? = some .endBlock ∨ tokens.getLast? = some .endDocument := by
  obtain ⟨⟨node', rest⟩, hread, hrest⟩ := Option.bind_eq_some_iff.mp h
  obtain ⟨used, rfl⟩ := exists_eq_of_blockEntries? hread
  split at hrest
  · exact getLast?_of_isFinished .endBlock used ‹_›
  · cases hrest

/-- What a node begins with: a scalar is a token of its own, and a mapping is in a block or between
brackets. -/
theorem node?_cases (h : node? fuel false tokens = some (node, rest)) :
    (∃ text isPlain, node = .scalar text isPlain ∧ tokens = .scalar text isPlain :: rest) ∨
      (∃ items, node = .sequence items) ∨
      ((∃ entries, node = .mapping entries) ∧ ((∃ body, tokens = .beginMapping :: body) ∨
        ∃ used, tokens = used ++ .closeRecord :: rest)) := by
  cases fuel with
  | zero => cases h
  | succ fuel =>
      cases tokens with
      | nil => cases h
      | cons t body =>
          cases t with
          | scalar text isPlain =>
              cases h
              exact .inl ⟨text, isPlain, rfl, rfl⟩
          | openList => exact .inr (.inl (exists_sequence_of_listItems? h))
          | beginSequence => exact .inr (.inl (exists_sequence_of_blockItems? h))
          | openRecord =>
              have hread : recordEntries? fuel [] body = some (node, rest) := h
              obtain ⟨hmapping, used, rfl⟩ := mapping_of_recordEntries? hread
              exact .inr (.inr ⟨hmapping, .inr ⟨.openRecord :: used, rfl⟩⟩)
          | beginMapping =>
              have hread : blockEntries? fuel [] body = some (node, rest) := h
              obtain ⟨entries, hmapping, -⟩ := mem_of_blockEntries? hread
              exact .inr (.inr ⟨⟨entries, hmapping⟩, .inl ⟨body, rfl⟩⟩)
          | _ => cases h

/-- A document is nothing but marks, or a node with a mark in front of it perhaps and with marks
behind. -/
theorem ofTokens?_cases (h : Node.ofTokens? tokens = some node) :
    (node = .empty ∧ ∃ rest, isFinished rest = true ∧ tokens = .beginDocument :: rest) ∨
      ∃ start body fuel rest, (start = [] ∨ start = [.beginDocument]) ∧ tokens = start ++ body ∧
        node? fuel false body = some (node, rest) ∧ isFinished rest = true := by
  have hfinished {found : Node} {rest : List Token}
      (h : (if isFinished rest = true then some found else none) = some node) :
      found = node ∧ isFinished rest = true := by
    split at h
    · exact ⟨Option.some.inj h, ‹_›⟩
    · cases h
  unfold Node.ofTokens? at h
  dsimp only at h
  split at h
  · next body =>
      obtain ⟨⟨found, rest⟩, hread, h⟩ := Option.bind_eq_some_iff.mp h
      obtain ⟨rfl, hrest⟩ := hfinished h
      unfold content? at hread
      split at hread
      · cases hread
        exact .inl ⟨rfl, [], rfl, rfl⟩
      · cases hread
        cases hrest
      · cases hread
        exact .inl ⟨rfl, _, hrest, rfl⟩
      · exact .inr ⟨[.beginDocument], body, _, rest, .inr rfl, rfl, hread, hrest⟩
  · obtain ⟨⟨found, rest⟩, hread, h⟩ := Option.bind_eq_some_iff.mp h
    obtain ⟨rfl, hrest⟩ := hfinished h
    exact .inr ⟨[], tokens, _, rest, .inl rfl, rfl, hread, hrest⟩

/-- **A document that is a mapping** is a block, or it ends with a bracket or a mark. -/
theorem mapping_of_ofTokens? (h : Node.ofTokens? tokens = some (.mapping entries)) :
    (∃ start body, IsOpening start ∧ tokens = start ++ body) ∨
      tokens.getLast? = some .closeRecord ∨ tokens.getLast? = some .endDocument := by
  rcases ofTokens?_cases h with ⟨hempty, -⟩ | ⟨start, body, fuel, rest, hstart, rfl, hread, hrest⟩
  · cases hempty
  · rcases node?_cases hread with ⟨text, isPlain, heq, -⟩ | ⟨items, heq⟩ | ⟨-, hblock | hrecord⟩
    · cases heq
    · cases heq
    · obtain ⟨body, rfl⟩ := hblock
      refine .inl ⟨start ++ [.beginMapping], body, ?_, by simp⟩
      rcases hstart with rfl | rfl
      · exact .inl rfl
      · exact .inr rfl
    · obtain ⟨used, rfl⟩ := hrecord
      rw [← List.append_assoc]
      exact .inr (getLast?_of_isFinished .closeRecord (start ++ used) hrest)

/-- A document that says nothing ends with a mark, unless it is a scalar without text. -/
theorem getLast?_of_empty (h : Node.ofTokens? tokens = some .empty) :
    tokens.getLast? = some .beginDocument ∨ tokens.getLast? = some .endDocument ∨
      tokens.getLast? = some (.scalar "" true) := by
  rcases ofTokens?_cases h with
    ⟨-, rest, hrest, rfl⟩ | ⟨start, body, fuel, rest, -, rfl, hread, hrest⟩
  · exact (getLast?_of_isFinished .beginDocument [] hrest).imp_right .inl
  · rcases node?_cases hread with ⟨text, isPlain, heq, rfl⟩ | ⟨items, heq⟩ | ⟨⟨entries, heq⟩, -⟩
    · cases heq
      rcases getLast?_of_isFinished (.scalar "" true) start hrest with hscalar | hmark
      · exact .inr (.inr hscalar)
      · exact .inr (.inl hmark)
    · cases heq
    · cases heq

/-- **A document that is closed.** Behind the outermost block of a document no other one begins. -/
theorem ofTokens?_closed {start : List Token} (hstart : IsOpening start)
    (h : Node.ofTokens? (start ++ tokens) = some node) (more : List Token) :
    Node.ofTokens? (start ++ (tokens ++ .beginMapping :: more)) = none := by
  have hentries : entries? tokens = some node := (ofTokens?_opening hstart tokens).symm.trans h
  obtain ⟨⟨node', rest⟩, hread, hrest⟩ := Option.bind_eq_some_iff.mp hentries
  split at hrest
  · next hfinished =>
      cases rest with
      | nil =>
          obtain ⟨used, rfl⟩ := exists_eq_of_blockEntries? hread
          have hopen : IsOpenRecord (start ++ used) :=
            ⟨start, used, hstart, rfl, Option.isSome_iff_exists.mpr ⟨node, hentries⟩⟩
          have hclosed : Node.ofTokens? (start ++ used ++ .endBlock :: .beginMapping :: more) = none :=
            hopen.ofTokens?_closed
          simpa using hclosed
      | cons t rest =>
          obtain ⟨used, rfl, hused⟩ := (allLocal _).blockEntries [] _ _ _ hread
          have hle : 4 * (used ++ t :: rest).length + 7 ≤
              4 * (used ++ t :: (rest ++ .beginMapping :: more)).length + 7 := by
            simp only [List.length_append, List.length_cons]
            omega
          have hlonger : blockEntries? _ [] (used ++ t :: (rest ++ .beginMapping :: more)) = _ :=
            hused _ hle _ (.cons t rest (rest ++ .beginMapping :: more))
          have hnot : isFinished (t :: (rest ++ .beginMapping :: more)) = false := by
            simp [isFinished]
          rw [List.append_assoc, List.cons_append, ofTokens?_opening hstart, entries?, hlonger,
            Option.bind_some, hnot]
          rfl
  · cases hrest

end CodeFence.Yaml
