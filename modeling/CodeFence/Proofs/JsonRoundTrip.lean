import CodeFence.Json.Value
import CodeFence.Proofs.JsonWords

/-!
# Written JSON read back

The words of a value put together the very value again, whatever is open around
it.  So a text that the writer laid out says what it was written for, in either
layout.

* `Json.tree` — what the text of a value says;
* `Reads.append` — readings one after the other;
* `reads_tokens` — the words of a value put that value where it belongs;
* `parse?_render` — a written text says what its value says.
-/

namespace CodeFence.Json

mutual

/-- What the text of a value says. -/
def tree : Json → Tree
  | .null => .null
  | .bool b => .bool b
  | .number n => .number n
  | .string s => .string (some s)
  | .array items => .array (itemTrees items)
  | .object entries => .object (entryTrees entries)

/-- What the texts of items say. -/
def itemTrees : List Json → List Tree
  | [] => []
  | v :: rest => v.tree :: itemTrees rest

/-- What the texts of entries say. -/
def entryTrees : List (String × Json) → List (Option String × Tree)
  | [] => []
  | (key, v) :: rest => (some key, v.tree) :: entryTrees rest

end

/-- The words `ts` lead from one reading to another. -/
def Reads (r : Reading) (ts : List Token) (r' : Reading) : Prop :=
  ts.foldlM Reading.step r = some r'

theorem Reads.append {r r' r'' : Reading} {ts us : List Token} (h : Reads r ts r')
    (h' : Reads r' us r'') : Reads r (ts ++ us) r'' := by
  unfold Reads at h h' ⊢
  rw [List.foldlM_append, h]
  exact h'

theorem Reads.cons {r r' r'' : Reading} {t : Token} {us : List Token}
    (h : r.step t = some r') (h' : Reads r' us r'') : Reads r (t :: us) r'' := by
  unfold Reads at h' ⊢
  rw [List.foldlM_cons, h]
  exact h'

theorem reads_nil (r : Reading) : Reads r [] r := rfl

theorem reads_one {r r' : Reading} {t : Token} (h : r.step t = some r') : Reads r [t] r' :=
  (reads_nil r').cons h

mutual

/-- **The words of a value** put it where it belongs, wherever a value may
begin. -/
theorem reads_tokens (v : Json) (stack : List Frame) {e : Expect}
    (he : e = .item ∨ e = .value) {r : Reading} (hput : Reading.put v.tree stack = some r) :
    Reads ⟨stack, e⟩ v.tokens r := by
  match v with
  | .null | .bool _ | .number _ | .string _ => rcases he with rfl | rfl <;> exact reads_one hput
  | .array items =>
      have hopen : Reading.step ⟨stack, e⟩ .openArray = some ⟨.array [] :: stack, .item⟩ := by
        rcases he with rfl | rfl <;> rfl
      rw [tokens]
      refine Reads.cons hopen ?_
      match items with
      | [] => exact reads_one hput
      | v :: rest =>
          have hfirst := reads_tokens v (.array [] :: stack) (Or.inl rfl) rfl
          have hothers := reads_itemTokens rest [v.tree] stack
          have hclose : Reading.step ⟨.array ((itemTrees rest).reverse ++ [v.tree]) :: stack,
              .separator⟩ .closeArray = some r := by
            rw [← hput]
            simp [Reading.step, tree, itemTrees]
          rw [itemTokens]
          exact (hfirst.append hothers).append (reads_one hclose)
  | .object entries =>
      have hopen : Reading.step ⟨stack, e⟩ .openObject =
          some ⟨.object [] :: stack, .firstKey⟩ := by
        rcases he with rfl | rfl <;> rfl
      rw [tokens]
      refine Reads.cons hopen ?_
      match entries with
      | [] => exact reads_one hput
      | (key, v) :: rest =>
          have hfirst := reads_tokens v (.member (some key) :: .object [] :: stack) (Or.inr rfl) rfl
          have hothers := reads_entryTokens rest [(some key, v.tree)] stack
          have hclose : Reading.step ⟨.object ((entryTrees rest).reverse ++
              [(some key, v.tree)]) :: stack, .separator⟩ .closeObject = some r := by
            rw [← hput]
            simp [Reading.step, tree, entryTrees]
          rw [entryTokens]
          exact Reads.cons rfl (Reads.cons rfl
            ((hfirst.append hothers).append (reads_one hclose)))

/-- Items behind a comma each go on with the array that is open. -/
theorem reads_itemTokens (items : List Json) (done : List Tree) (stack : List Frame) :
    Reads ⟨.array done :: stack, .separator⟩ (itemTokens false items)
      ⟨.array ((itemTrees items).reverse ++ done) :: stack, .separator⟩ := by
  match items with
  | [] => exact reads_nil _
  | v :: rest =>
      have hfirst := reads_tokens v (.array done :: stack) (Or.inr rfl) rfl
      have hothers := reads_itemTokens rest (v.tree :: done) stack
      rw [itemTokens, itemTrees, List.reverse_cons, List.append_assoc _ [v.tree]]
      exact Reads.cons rfl (hfirst.append hothers)

/-- Entries behind a comma each go on with the object that is open. -/
theorem reads_entryTokens (entries : List (String × Json))
    (done : List (Option String × Tree)) (stack : List Frame) :
    Reads ⟨.object done :: stack, .separator⟩ (entryTokens false entries)
      ⟨.object ((entryTrees entries).reverse ++ done) :: stack, .separator⟩ := by
  match entries with
  | [] => exact reads_nil _
  | (key, v) :: rest =>
      have hfirst := reads_tokens v (.member (some key) :: .object done :: stack) (Or.inr rfl) rfl
      have hothers := reads_entryTokens rest ((some key, v.tree) :: done) stack
      rw [entryTokens, entryTrees, List.reverse_cons, List.append_assoc _ [(some key, v.tree)]]
      exact Reads.cons rfl (Reads.cons rfl (Reads.cons rfl (hfirst.append hothers)))

end

/-- **Round trip.**  A written text says what its value says, in either layout. -/
theorem parse?_render (l : Layout) {v : Json} (hv : v.Plain) :
    Tree.parse? (v.render l) = some v.tree := by
  have hread : Reads ⟨[], .value⟩ v.tokens ⟨[], .nothing v.tree⟩ :=
    reads_tokens v [] (Or.inr rfl) rfl
  unfold Reads at hread
  rw [Tree.parse?, tokens?_render l hv, Option.bind_some, Tree.ofTokens?, hread]

end CodeFence.Json
