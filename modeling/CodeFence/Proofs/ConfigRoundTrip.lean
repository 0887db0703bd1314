import CodeFence.Page.Wrapper
import CodeFence.Proofs.ConfigRepair
import CodeFence.Proofs.JsonRoundTrip

/-!
# Recorded configurations

What a wrapper says about the configuration of its block is read back as that
configuration, whatever stands in its texts.  Anything that can be read at all
has numbers of at most 32 bits, and what is read is repaired, so a recorded
configuration is always fit for use and is written again as it is.

* `ofTree?_toJson` — every field is found under its key, and what was left out
  has its default;
* `parse?_render` — a configuration reads back from its own text;
* `inRange_of_parse?` — what can be read is in range;
* `blockConfig_of_render` — a valid configuration that was recorded is the one
  of the block.
-/

namespace CodeFence

namespace BlockConfig

open Json

theorem itemsPlain_ofNat {ns : List Nat} (h : ∀ n ∈ ns, n < Text.bitBound 32) :
    PlainItems (ns.map Json.ofNat) := by
  induction ns with
  | nil => simp [PlainItems]
  | cons n ns ih =>
      have hn : n < Text.bitBound 64 :=
        Nat.lt_trans (h n List.mem_cons_self) (by decide)
      have hrest := ih fun m hm => h m (List.mem_cons_of_mem _ hm)
      rw [List.map_cons, PlainItems, Json.ofNat, Plain]
      exact ⟨⟨n, hn, rfl⟩, hrest⟩

/-- The numbers of a configuration in range can be written as JSON. -/
theorem InRange.plain_toJson {c : BlockConfig} (h : c.InRange) : c.toJson.Plain := by
  have hstart : c.startLine < Text.bitBound 64 := Nat.lt_trans h.startLine (by decide)
  have hlines := itemsPlain_ofNat h.lines
  unfold toJson
  cases c.title <;> cases c.filename <;> cases c.theme <;>
    simp [Plain, PlainEntries, Json.ofNat, hstart, hlines]

/-- Line numbers in range are read back. -/
theorem mapM_lineField? {ns : List Nat} (h : ∀ n ∈ ns, n < Text.bitBound 32) :
    (itemTrees (ns.map Json.ofNat)).mapM lineField? = some ns := by
  induction ns with
  | nil => rfl
  | cons n ns ih =>
      have hn := h n List.mem_cons_self
      have hrest := ih fun m hm => h m (List.mem_cons_of_mem _ hm)
      have hfield : lineField? (Json.ofNat n).tree = some n := by
        simp [Json.ofNat, tree, lineField?, hn]
      rw [List.map_cons, itemTrees, List.mapM_cons, hfield, hrest]
      rfl

/-- Every field is found under its key; one that was left out has no value. -/
theorem InRange.ofTree?_toJson {c : BlockConfig} (h : c.InRange) :
    ofTree? c.toJson.tree = some c := by
  have hlines := mapM_lineField? h.lines
  have hstart := h.startLine
  obtain ⟨language, lines, numbers, start, title, filename, fold, unfold, exclude, theme⟩ := c
  dsimp only at hlines hstart
  cases title <;> cases filename <;> cases theme <;>
    simp [toJson, tree, entryTrees, ofTree?, keysAreSound, keys, ofFields?, List.lookup_cons,
      stringField?, boolField?, lineField?, linesField?, labelField?, Json.ofNat, hstart, hlines]

/-- **Round trip.**  A configuration in range reads back from its own text. -/
theorem InRange.parse?_render {c : BlockConfig} (h : c.InRange) : parse? c.render = some c := by
  rw [parse?, render, Json.parse?_render .compact h.plain_toJson, Option.bind_some,
    h.ofTree?_toJson]

theorem lt_of_lineField? {t : Tree} {n : Nat} (h : lineField? t = some n) :
    n < Text.bitBound 32 := by
  unfold lineField? at h
  split at h
  · split at h
    · obtain rfl := Option.some.inj h
      assumption
    · cases h
  · cases h

theorem lt_of_linesField? {t : Tree} {ns : List Nat} (h : linesField? t = some ns) :
    ∀ n ∈ ns, n < Text.bitBound 32 := by
  unfold linesField? at h
  split at h
  · rename_i items
    induction items generalizing ns with
    | nil =>
        obtain rfl : [] = ns := by simpa using h
        simp
    | cons t items ih =>
        simp only [List.mapM_cons, Option.bind_eq_bind, Option.bind_eq_some_iff,
          Option.pure_def, Option.some.injEq] at h
        obtain ⟨n, hn, rest, hrest, rfl⟩ := h
        intro m hm
        rcases List.mem_cons.mp hm with rfl | hm
        · exact lt_of_lineField? hn
        · exact ih hrest m hm
  · cases h

theorem one_lt_bound : 1 < Text.bitBound 32 := by decide

/-- What can be read is in range. -/
theorem inRange_of_ofFields? {find : String → Option Tree} {c : BlockConfig}
    (h : ofFields? find = some c) : c.InRange := by
  simp only [ofFields?, Option.bind_eq_bind, Option.bind_eq_some_iff, Option.pure_def,
    Option.some.injEq] at h
  obtain ⟨_, _, _, _, lines, hlines, _, _, start, hstart, _, _, _, _, _, _, _, _, _, _, _, _,
    rfl⟩ := h
  refine ⟨?_, ?_⟩
  · split at hstart
    · exact lt_of_lineField? hstart
    · obtain rfl : 1 = start := Option.some.inj hstart
      exact one_lt_bound
  · split at hlines
    · exact lt_of_linesField? hlines
    · obtain rfl : [] = lines := Option.some.inj hlines
      simp

theorem inRange_of_parse? {text : String} {c : BlockConfig} (h : parse? text = some c) :
    c.InRange := by
  obtain ⟨t, -, hread⟩ := Option.bind_eq_some_iff.mp h
  unfold ofTree? at hread
  split at hread
  · split at hread
    · exact inRange_of_ofFields? hread
    · cases hread
  · split at hread
    · exact inRange_of_ofFields? hread
    · cases hread
  · cases hread

end BlockConfig

namespace BlockAttributes

open BlockConfig

theorem isValid_blockConfig (a : BlockAttributes) : a.blockConfig.isValid = true :=
  isValid_repaired _

theorem inRange_blockConfig (a : BlockAttributes) : a.blockConfig.InRange := by
  have hbare : ({ language := canonicalLanguage a.language } : BlockConfig).InRange :=
    ⟨one_lt_bound, by simp⟩
  unfold blockConfig
  cases hread : a.config.bind parse? with
  | none => exact hbare.repaired
  | some c =>
      obtain ⟨text, -, hparse⟩ := Option.bind_eq_some_iff.mp hread
      exact (inRange_of_parse? hparse).repaired

/-- **A recorded configuration** that is valid and in range is the one of the
block. -/
theorem blockConfig_of_render {a : BlockAttributes} {c : BlockConfig}
    (ha : a.config = some c.render) (hvalid : c.isValid = true) (hrange : c.InRange) :
    a.blockConfig = c := by
  rw [blockConfig, ha, Option.bind_some, hrange.parse?_render, Option.getD_some,
    repaired_of_isValid hvalid]

end BlockAttributes

end CodeFence
