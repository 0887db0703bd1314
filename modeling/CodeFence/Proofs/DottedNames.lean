import CodeFence.Proofs.TextCuts
import CodeFence.Theme.Basic

/-!
# The ancestors of a dotted name

A name is served by itself and by every name that it continues with a dot.  The search
drops what stands behind the last dot until there is no dot left, so it looks at just
these names, the longest first, and ends after as many steps as the name has dots.

* `Serves` — a name is another one or an ancestor of it;
* `lineage`, `inScope?_eq` — the names that are looked at, in order;
* `mem_lineage_iff`, `length_lineage`, `pairwise_lineage` — which they are, how many,
  and that each is shorter than the one before;
* `IsNearest`, `inScope?_eq_some_iff` — the answer is that of the longest one that has
  an answer;
* `fallback_exact` — the color of a name in a theme, and the scope of a name.
-/

namespace CodeFence.Syntax

/-- A scope serves a name: it is the name, or the name begins with it and a dot. -/
def Serves (scope name : List Char) : Prop :=
  name = scope ∨ scope ++ ['.'] <+: name

instance (scope name : List Char) : Decidable (Serves scope name) :=
  inferInstanceAs (Decidable (name = scope ∨ scope ++ ['.'] <+: name))

variable {scope other name parent : List Char}

/-! ## Cutting a name at its last dot -/

/-- Nothing is dropped from the first dot on. -/
theorem dropWhile_ne_dot {front back : List Char} (hfront : '.' ∉ front)
    (hback : ∀ c ∈ back.head?, c = '.') : (front ++ back).dropWhile (· ≠ '.') = back := by
  have hdropped : ∀ c ∈ front, decide (c ≠ '.') = true := by
    intro c hc
    rw [decide_eq_true_eq]
    intro hdot
    exact hfront (hdot ▸ hc)
  have hkept : ∀ c ∈ back.head?, decide (c ≠ '.') = false := by
    intro c hc
    simp [hback c hc]
  exact (span_append hdropped hkept).2

theorem parentScope?_of_not_mem (h : '.' ∉ name) : parentScope? name = none := by
  have hnone := @dropWhile_ne_dot name.reverse [] (by simpa using h) (by simp)
  rw [List.append_nil] at hnone
  rw [parentScope?, hnone]

theorem parentScope?_append {last : List Char} (h : '.' ∉ last) (parent : List Char) :
    parentScope? (parent ++ '.' :: last) = some parent := by
  have hcut := @dropWhile_ne_dot last.reverse ('.' :: parent.reverse) (by simpa using h)
    (by simp)
  have hreverse : (parent ++ '.' :: last).reverse = last.reverse ++ '.' :: parent.reverse := by
    simp
  rw [parentScope?, hreverse, hcut]
  simp

/-- **A name is cut at its last dot**, if it has one. -/
theorem parentScope?_cases (name : List Char) :
    ('.' ∉ name ∧ parentScope? name = none) ∨
      ∃ parent last, '.' ∉ last ∧ name = parent ++ '.' :: last ∧
        parentScope? name = some parent := by
  by_cases hdot : '.' ∈ name
  · obtain ⟨back, front, hreverse, hback⟩ :=
      List.eq_append_cons_of_mem (List.mem_reverse.mpr hdot)
    have hname : name = front.reverse ++ '.' :: back.reverse := by
      simpa using congrArg List.reverse hreverse
    have hlast : '.' ∉ back.reverse := by simpa using hback
    have hcut := parentScope?_append hlast front.reverse
    rw [← hname] at hcut
    exact Or.inr ⟨front.reverse, back.reverse, hlast, hname, hcut⟩
  · exact Or.inl ⟨hdot, parentScope?_of_not_mem hdot⟩

/-! ## The names that are looked at -/

/-- A name and its ancestors, the longest first. -/
def lineage (name : List Char) : List (List Char) :=
  match h : parentScope? name with
  | some parent =>
    have := length_of_parentScope? h
    name :: lineage parent
  | none => [name]
termination_by name.length

theorem lineage_of_none (h : parentScope? name = none) : lineage name = [name] := by
  rw [lineage]
  split <;> simp_all

theorem lineage_of_some (h : parentScope? name = some parent) :
    lineage name = name :: lineage parent := by
  rw [lineage]
  split <;> simp_all

/-- **Along a lineage.**  What holds of the names without a dot, and of a name if it
holds of the name in front of its last dot, holds of every name. -/
theorem lineage_induction {motive : List Char → Prop}
    (plain : ∀ name, '.' ∉ name → lineage name = [name] → motive name)
    (dotted : ∀ parent last, '.' ∉ last →
      lineage (parent ++ '.' :: last) = (parent ++ '.' :: last) :: lineage parent →
      motive parent → motive (parent ++ '.' :: last))
    (name : List Char) : motive name := by
  rcases parentScope?_cases name with ⟨hdot, hnone⟩ | ⟨parent, last, hlast, rfl, hsome⟩
  · exact plain name hdot (lineage_of_none hnone)
  · have hshorter := length_of_parentScope? hsome
    exact dotted parent last hlast (lineage_of_some hsome)
      (lineage_induction plain dotted parent)
termination_by name.length

/-- The search looks at the names of the lineage, one after the other. -/
theorem inScope?_eq {α : Type} (find : List Char → Option α) (name : List Char) :
    inScope? find name = (lineage name).findSome? find := by
  fun_induction inScope? find name with
  | case1 name a hfind =>
      rw [lineage]
      split <;> simp [hfind]
  | case2 name hfind parent hparent _ ih =>
      rw [lineage_of_some hparent, List.findSome?_cons, hfind]
      exact ih
  | case3 name hfind hparent =>
      rw [lineage_of_none hparent]
      simp [hfind]

/-- **There are as many ancestors as dots.** -/
theorem length_lineage (name : List Char) :
    (lineage name).length = name.count '.' + 1 := by
  induction name using lineage_induction with
  | plain name hdot hline =>
      rw [hline, List.count_eq_zero_of_not_mem hdot]
      rfl
  | dotted parent last hlast hline ih =>
      have hcount : last.count '.' = 0 := List.count_eq_zero_of_not_mem hlast
      rw [hline, List.length_cons, ih, List.count_append, List.count_cons_self, hcount]

/-- What serves a name that has a dot is the name itself, or serves what stands in
front of its last dot. -/
theorem append_dot_prefix_iff {last : List Char} (h : '.' ∉ last) :
    scope ++ ['.'] <+: parent ++ '.' :: last ↔ Serves scope parent := by
  constructor
  · rintro ⟨rest, hrest⟩
    rw [List.append_assoc, List.singleton_append] at hrest
    rcases List.append_eq_append_iff.mp hrest with ⟨middle, rfl, hbehind⟩ | ⟨middle, rfl, hbehind⟩
    · cases middle with
      | nil => exact Or.inl (List.append_nil scope)
      | cons c middle =>
          obtain ⟨rfl, -⟩ := List.cons.inj hbehind
          exact Or.inr ⟨middle, by simp⟩
    · cases middle with
      | nil => exact Or.inl (List.append_nil parent).symm
      | cons c middle =>
          -- the dot behind the scope would stand behind the last dot of the name
          obtain ⟨-, rfl⟩ := List.cons.inj hbehind
          simp at h
  · rintro (rfl | ⟨rest, rfl⟩)
    · exact ⟨last, by simp⟩
    · exact ⟨rest ++ '.' :: last, by simp⟩

/-- **The lineage of a name** are the names that serve it. -/
theorem mem_lineage_iff : scope ∈ lineage name ↔ Serves scope name := by
  induction name using lineage_induction with
  | plain name hdot hline =>
      rw [hline, List.mem_singleton, Serves, eq_comm]
      constructor
      · exact Or.inl
      · rintro (heq | ⟨rest, rfl⟩)
        · exact heq
        · simp at hdot
  | dotted parent last hlast hline ih =>
      rw [hline, List.mem_cons, ih, ← append_dot_prefix_iff hlast, Serves, eq_comm]

theorem Serves.length_le (h : Serves scope name) : scope.length ≤ name.length := by
  rcases h with rfl | hprefix
  · exact Nat.le_refl _
  · have hlength := hprefix.length_le
    rw [List.length_append] at hlength
    omega

/-- Each name of a lineage is shorter than the ones before it. -/
theorem pairwise_lineage (name : List Char) :
    (lineage name).Pairwise fun a b => b.length < a.length := by
  induction name using lineage_induction with
  | plain name hdot hline =>
      rw [hline]
      exact List.pairwise_singleton _ name
  | dotted parent last hlast hline ih =>
      rw [hline, List.pairwise_cons]
      refine ⟨?_, ih⟩
      intro scope hscope
      have hle := (mem_lineage_iff.mp hscope).length_le
      rw [List.length_append, List.length_cons]
      omega

/-! ## The nearest name -/

/-- A name has an answer exactly if it is served by a name that has one; the answer is
that of the longest of these. -/
theorem inScope?_eq_some_iff {α : Type} {find : List Char → Option α} {a : α} :
    inScope? find name = some a ↔
      ∃ scope, find scope = some a ∧ Serves scope name ∧
        ∀ other, (find other).isSome = true → Serves other name →
          other.length ≤ scope.length := by
  rw [inScope?_eq, List.findSome?_eq_some_iff]
  constructor
  · rintro ⟨longer, scope, shorter, hline, hfind, hlonger⟩
    -- The scopes of a name come longest first.
    have hpairwise := pairwise_lineage name
    have hmem : scope ∈ lineage name := by simp [hline]
    refine ⟨scope, hfind, mem_lineage_iff.mp hmem, ?_⟩
    intro other hother hserves
    rw [← mem_lineage_iff, hline, List.mem_append, List.mem_cons] at hserves
    rcases hserves with hbefore | rfl | hbehind
    · rw [hlonger other hbefore] at hother
      cases hother
    · exact Nat.le_refl _
    · rw [hline, List.pairwise_append, List.pairwise_cons] at hpairwise
      exact Nat.le_of_lt (hpairwise.2.1.1 other hbehind)
  · rintro ⟨scope, hfind, hserves, hlongest⟩
    obtain ⟨longer, shorter, hline⟩ := List.append_of_mem (mem_lineage_iff.mpr hserves)
    refine ⟨longer, scope, shorter, hline, hfind, ?_⟩
    intro other hother
    have hpairwise := pairwise_lineage name
    rw [hline, List.pairwise_append] at hpairwise
    have hlt := hpairwise.2.2 other hother scope List.mem_cons_self
    have hmem : other ∈ lineage name := by simp [hline, hother]
    rw [← Option.not_isSome_iff_eq_none]
    intro hsome
    have hle := hlongest other hsome (mem_lineage_iff.mp hmem)
    omega

theorem inScope?_eq_none_iff {α : Type} {find : List Char → Option α} :
    inScope? find name = none ↔ ∀ scope, Serves scope name → find scope = none := by
  rw [inScope?_eq, List.findSome?_eq_none_iff]
  simp only [mem_lineage_iff]

theorem forall_string_iff {p : List Char → Prop} :
    (∀ cs, p cs) ↔ ∀ s : String, p s.toList := by
  constructor
  · intro h s
    exact h s.toList
  · intro h cs
    have hcs := h (String.ofList cs)
    rwa [String.toList_ofList] at hcs

theorem exists_string_iff {p : List Char → Prop} :
    (∃ cs, p cs) ↔ ∃ s : String, p s.toList := by
  constructor
  · rintro ⟨cs, hcs⟩
    exact ⟨String.ofList cs, by rwa [String.toList_ofList]⟩
  · rintro ⟨s, hs⟩
    exact ⟨s.toList, hs⟩

/-- The longest of the names with `p` that serve a name. -/
def IsNearest (p : String → Prop) (name scope : String) : Prop :=
  p scope ∧ Serves scope.toList name.toList ∧
    ∀ other, p other → Serves other.toList name.toList → other.length ≤ scope.length

theorem nodup_scopes : scopes.Nodup := by
  decide

/-- A scope is found at its place. -/
theorem findIdx?_scopes_eq_some_iff {id : Nat} {scope : String} :
    scopes.findIdx? (·.toList = scope.toList) = some id ↔ scopeName? id = some scope := by
  rw [List.findIdx?_eq_some_iff_getElem, scopeName?, List.getElem?_eq_some_iff]
  constructor
  · rintro ⟨hlt, hfound, -⟩
    exact ⟨hlt, String.toList_inj.mp (of_decide_eq_true hfound)⟩
  · rintro ⟨hlt, rfl⟩
    refine ⟨hlt, by simp, ?_⟩
    intro j hj
    have hne : scopes[j] ≠ scopes[id] :=
      List.pairwise_iff_getElem.mp nodup_scopes j id (by omega) hlt hj
    simpa [String.toList_inj] using hne

theorem isSome_findIdx?_scopes_iff {scope : String} :
    (scopes.findIdx? (·.toList = scope.toList)).isSome = true ↔ scope ∈ scopes := by
  simp [List.findIdx?_isSome, String.toList_inj]

/-! ## Colors and scopes -/

theorem colorFor_eq_some_iff {t : Theme} {name : String} {color : Color} :
    t.colorFor name = some color ↔ ∃ key, t.scopes.lookup key = some color ∧
      IsNearest (fun k => (t.scopes.lookup k).isSome = true) name key := by
  rw [Theme.colorFor, inScope?_eq_some_iff, exists_string_iff]
  simp only [forall_string_iff, String.ofList_toList, String.length_toList, IsNearest]
  constructor
  · rintro ⟨key, hkey, hserves, hlongest⟩
    exact ⟨key, hkey, by rw [hkey]; rfl, hserves, hlongest⟩
  · rintro ⟨key, hkey, -, hserves, hlongest⟩
    exact ⟨key, hkey, hserves, hlongest⟩

theorem colorFor_eq_none_iff {t : Theme} {name : String} :
    t.colorFor name = none ↔
      ∀ key : String, Serves key.toList name.toList → t.scopes.lookup key = none := by
  rw [Theme.colorFor, inScope?_eq_none_iff, forall_string_iff]
  simp only [String.ofList_toList]

theorem scopeId?_eq_some_iff {name : String} {id : Nat} :
    scopeId? name = some id ↔ ∃ scope, scopeName? id = some scope ∧
      IsNearest (· ∈ scopes) name scope := by
  rw [scopeId?, inScope?_eq_some_iff, exists_string_iff]
  simp only [forall_string_iff, findIdx?_scopes_eq_some_iff, isSome_findIdx?_scopes_iff,
    String.length_toList, IsNearest]
  constructor
  · rintro ⟨scope, hscope, hserves, hlongest⟩
    exact ⟨scope, hscope, List.mem_of_getElem? hscope, hserves, hlongest⟩
  · rintro ⟨scope, hscope, -, hserves, hlongest⟩
    exact ⟨scope, hscope, hserves, hlongest⟩

theorem scopeId?_eq_none_iff {name : String} :
    scopeId? name = none ↔ ∀ scope ∈ scopes, ¬ Serves scope.toList name.toList := by
  rw [scopeId?, inScope?_eq_none_iff, forall_string_iff]
  apply forall_congr'
  intro scope
  rw [← Option.not_isSome_iff_eq_none, isSome_findIdx?_scopes_iff]
  exact imp_not_comm

/-- The color that a theme has for the scope at a place of the table. -/
def scopeColor? (theme : Theme) (id : Nat) : Option Color :=
  (scopeName? id).bind theme.colorFor

/-- A theme that names no scope has no colors. -/
theorem scopeColor?_of_no_scopes {theme : Theme} (h : theme.scopes = []) (id : Nat) :
    scopeColor? theme id = none := by
  rw [scopeColor?, Option.bind_eq_none_iff]
  intro name _
  rw [colorFor_eq_none_iff, h]
  intro key _
  rfl

/-- **Dotted fallback.**  For any name, whatever its dots, the color of a theme is that
of the longest key of its map that is the name or that the name continues with a dot, and
there is no color if there is no such key; likewise the scope that serves the name is the
longest such one of the table, and what stands at its place is that scope.  Both look at
one name more than there are dots, and then end. -/
theorem fallback_exact (t : Theme) (name : String) :
    (∀ color, t.colorFor name = some color ↔ ∃ key, t.scopes.lookup key = some color ∧
      IsNearest (fun k => (t.scopes.lookup k).isSome = true) name key) ∧
    (t.colorFor name = none ↔
      ∀ key : String, Serves key.toList name.toList → t.scopes.lookup key = none) ∧
    (∀ id, scopeId? name = some id ↔ ∃ scope, scopeName? id = some scope ∧
      IsNearest (· ∈ scopes) name scope) ∧
    (scopeId? name = none ↔ ∀ scope ∈ scopes, ¬ Serves scope.toList name.toList) ∧
    (lineage name.toList).length = name.toList.count '.' + 1 ∧
    t.colorFor name =
      (lineage name.toList).findSome? (fun k => t.scopes.lookup (String.ofList k)) ∧
    scopeId? name =
      (lineage name.toList).findSome? (fun k => scopes.findIdx? (·.toList = k)) := by
  refine ⟨fun color => colorFor_eq_some_iff, colorFor_eq_none_iff, fun id => scopeId?_eq_some_iff,
    scopeId?_eq_none_iff, length_lineage _, inScope?_eq _ _, inScope?_eq _ _⟩

/-- Empty parts are parts like any other. -/
example : scopeId? "keyword..import." = some 10 ∧ scopeId? ".keyword" = none := by
  decide +kernel

end CodeFence.Syntax
