import CodeFence.Engine.Scripted
import CodeFence.Proofs.EngineRecord

/-!
# What an engine is asked

An engine may answer each call as it likes, and differently each time.  What a
pipeline asks of it follows a protocol all the same.

* `Protocol` — the exchanges that keep to the protocol, as the steps of a
  machine whose state is the list of loaded languages;
* `RenderTalk`, `AttemptTalk` — the talks of one rendering and of one attempt
  in a language, one constructor for each way they may end;
* `OneAttempt` — what every attempt keeps to;
* `Talks.highlighted` — a block that the cache finds is no talk at all, and any
  other is made in two attempts at most;
* `exchanges_live` — the protocol through any history.
-/

namespace CodeFence

open Markup

namespace EngineCall

/-- Whether a source was to be rendered. -/
def isRender : EngineCall → Bool
  | render _ _ => true
  | _ => false

/-- Whether a language was to be loaded. -/
def isLanguage : EngineCall → Bool
  | language _ => true
  | _ => false

/-- Whether a theme was to be loaded. -/
def isTheme : EngineCall → Bool
  | theme _ => true
  | _ => false

end EngineCall

namespace Exchange

variable {σ : Type}

/-- A language was loaded. -/
def Loads (x : Exchange σ) (l : String) : Prop :=
  x.call = .language l ∧ x.failure = none

/-- The engine did not have the theme that it was to render in. -/
def MissesTheme (x : Exchange σ) : Prop :=
  ∃ e, x.failure = some e ∧ e.isThemeNotFound = true

end Exchange

variable {σ : Type}

/-- Exchanges that keep to the protocol while the languages that have been
loaded grow from `known` to `known'`: a language is loaded if the engine
supports it and it is not known, and a source is rendered in a known language. -/
inductive Protocol (e : Engine σ) : List String → List (Exchange σ) → List String → Prop
  | nil (known) : Protocol e known [] known
  | loaded {known calls known'} {s : σ} {l : String} (hsupports : e.supports s l = true)
      (hnew : l ∉ known) (rest : Protocol e (l :: known) calls known') :
      Protocol e known (⟨s, .language l, none⟩ :: calls) known'
  | refused {known calls known'} {s : σ} {l : String} {error : EngineError}
      (hsupports : e.supports s l = true) (hnew : l ∉ known)
      (rest : Protocol e known calls known') :
      Protocol e known (⟨s, .language l, some error⟩ :: calls) known'
  | render {known calls known'} {s : σ} {l : String} {theme : String}
      {failure : Option EngineError} (hknown : l ∈ known) (rest : Protocol e known calls known') :
      Protocol e known (⟨s, .render l theme, failure⟩ :: calls) known'
  | theme {known calls known'} {s : σ} {id : String} {failure : Option EngineError}
      (rest : Protocol e known calls known') :
      Protocol e known (⟨s, .theme id, failure⟩ :: calls) known'
  | settings {known calls known'} {s : σ} (rest : Protocol e known calls known') :
      Protocol e known (⟨s, .settings, none⟩ :: calls) known'

variable {e : Engine σ} {known known' known'' : List String} {calls calls' : List (Exchange σ)}

namespace Protocol

theorem append (h : Protocol e known calls known') (h' : Protocol e known' calls' known'') :
    Protocol e known (calls ++ calls') known'' := by
  induction h with
  | nil => exact h'
  | loaded hsupports hnew _ ih => exact loaded hsupports hnew (ih h')
  | refused hsupports hnew _ ih => exact refused hsupports hnew (ih h')
  | render hknown _ ih => exact render hknown (ih h')
  | theme _ ih => exact theme (ih h')
  | settings _ ih => exact settings (ih h')

/-- A language that is known is not loaded again. -/
theorem not_language_of_known (h : Protocol e known calls known') {l : String}
    (hl : l ∈ known) : ∀ x ∈ calls, x.call ≠ .language l := by
  induction h with
  | nil => intro x hx; cases hx
  | loaded _ hnew _ ih =>
      intro x hx
      rcases List.mem_cons.mp hx with rfl | hrest
      · rintro ⟨⟩
        exact hnew hl
      · exact ih (List.mem_cons_of_mem _ hl) x hrest
  | refused _ hnew _ ih =>
      intro x hx
      rcases List.mem_cons.mp hx with rfl | hrest
      · rintro ⟨⟩
        exact hnew hl
      · exact ih hl x hrest
  | render _ _ ih | theme _ ih | settings _ ih =>
      intro x hx
      rcases List.mem_cons.mp hx with rfl | hrest
      · rintro ⟨⟩
      · exact ih hl x hrest

/-- **No language is loaded twice.** -/
theorem not_language_after_load (h : Protocol e known calls known')
    {earlier later : List (Exchange σ)} {x : Exchange σ} {l : String}
    (hcalls : calls = earlier ++ x :: later) (hloads : x.Loads l) :
    ∀ y ∈ later, y.call ≠ .language l := by
  induction h generalizing earlier with
  | nil => simp at hcalls
  | loaded _ _ hrest ih =>
      cases earlier with
      | nil =>
          obtain ⟨rfl, rfl⟩ := List.cons_eq_cons.mp hcalls
          obtain ⟨⟨rfl⟩, -⟩ := hloads
          exact hrest.not_language_of_known List.mem_cons_self
      | cons _ _ => exact ih (List.cons_eq_cons.mp hcalls).2
  | refused _ _ _ ih =>
      cases earlier with
      | nil =>
          obtain ⟨rfl, rfl⟩ := List.cons_eq_cons.mp hcalls
          cases hloads.2
      | cons _ _ => exact ih (List.cons_eq_cons.mp hcalls).2
  | render _ _ ih | theme _ ih | settings _ ih =>
      cases earlier with
      | nil =>
          obtain ⟨rfl, rfl⟩ := List.cons_eq_cons.mp hcalls
          cases hloads.1
      | cons _ _ => exact ih (List.cons_eq_cons.mp hcalls).2

/-- **A language is loaded before it is rendered in**, unless it was known from
the start, and when it was loaded the engine supported it. -/
theorem loaded_before_render (h : Protocol e known calls known')
    {earlier later : List (Exchange σ)} {x : Exchange σ} {l theme : String}
    (hcalls : calls = earlier ++ x :: later) (hx : x.call = .render l theme) :
    l ∈ known ∨ ∃ y ∈ earlier, y.Loads l ∧ e.supports y.before l = true := by
  -- Along the protocol: what is known was known at first or comes from a load that
  -- was answered before.
  induction h generalizing earlier with
  | nil => simp at hcalls
  | @loaded _ _ _ s l' hsupports _ _ ih =>
      cases earlier with
      | nil =>
          obtain ⟨rfl, rfl⟩ := List.cons_eq_cons.mp hcalls
          cases hx
      | cons first earlier =>
          obtain ⟨rfl, hrest⟩ := List.cons_eq_cons.mp hcalls
          rcases ih hrest with hknown | ⟨y, hy, hloads⟩
          · rcases List.mem_cons.mp hknown with rfl | hold
            · exact Or.inr ⟨_, List.mem_cons_self, ⟨rfl, rfl⟩, hsupports⟩
            · exact Or.inl hold
          · exact Or.inr ⟨y, List.mem_cons_of_mem _ hy, hloads⟩
  | render hknown _ ih =>
      cases earlier with
      | nil =>
          obtain ⟨rfl, rfl⟩ := List.cons_eq_cons.mp hcalls
          cases hx
          exact Or.inl hknown
      | cons first earlier =>
          rcases ih (List.cons_eq_cons.mp hcalls).2 with hold | ⟨y, hy, hloads⟩
          · exact Or.inl hold
          · exact Or.inr ⟨y, List.mem_cons_of_mem _ hy, hloads⟩
  | refused _ _ _ ih | theme _ ih | settings _ ih =>
      cases earlier with
      | nil =>
          obtain ⟨rfl, rfl⟩ := List.cons_eq_cons.mp hcalls
          cases hx
      | cons first earlier =>
          rcases ih (List.cons_eq_cons.mp hcalls).2 with hold | ⟨y, hy, hloads⟩
          · exact Or.inl hold
          · exact Or.inr ⟨y, List.mem_cons_of_mem _ hy, hloads⟩

end Protocol

/-- The talk of one rendering in a loaded language, from a state of the engine
on: a missing theme is loaded, and if that succeeds the source is rendered
once more. -/
inductive RenderTalk {σ : Type} (s : σ) (l theme : String) : List (Exchange σ) → Prop
  | once {failure : Option EngineError}
      (hother : ¬ (⟨s, .render l theme, failure⟩ : Exchange σ).MissesTheme) :
      RenderTalk s l theme [⟨s, .render l theme, failure⟩]
  | unloadable {missing error : EngineError} {s' : σ} (hmissing : missing.isThemeNotFound = true) :
      RenderTalk s l theme
        [⟨s, .render l theme, some missing⟩, ⟨s', .theme theme, some error⟩]
  | again {missing : EngineError} {s' s'' : σ} {failure : Option EngineError}
      (hmissing : missing.isThemeNotFound = true) :
      RenderTalk s l theme
        [⟨s, .render l theme, some missing⟩, ⟨s', .theme theme, none⟩,
          ⟨s'', .render l theme, failure⟩]

/-- The talk of one attempt in a language, while the languages that have been
loaded grow from `known` to `known'`. -/
inductive AttemptTalk {σ : Type} (e : Engine σ) (theme : String) (known : List String) :
    List (Exchange σ) → List String → Prop
  | unsupported : AttemptTalk e theme known [] known
  | refused {s : σ} {l : String} {error : EngineError} (hsupports : e.supports s l = true)
      (hnew : l ∉ known) : AttemptTalk e theme known [⟨s, .language l, some error⟩] known
  | loaded {s s' : σ} {l : String} {calls : List (Exchange σ)}
      (hsupports : e.supports s l = true) (hnew : l ∉ known) (hcalls : RenderTalk s' l theme calls) :
      AttemptTalk e theme known (⟨s, .language l, none⟩ :: calls) (l :: known)
  | ready {s : σ} {l : String} {calls : List (Exchange σ)} (hsupports : e.supports s l = true)
      (hknown : l ∈ known) (hcalls : RenderTalk s l theme calls) :
      AttemptTalk e theme known calls known

theorem RenderTalk.protocol {s : σ} {l theme : String} (h : RenderTalk s l theme calls)
    (hl : l ∈ known) : Protocol e known calls known := by
  cases h with
  | once => exact .render hl (.nil _)
  | unloadable => exact .render hl (.theme (.nil _))
  | again => exact .render hl (.theme (.render hl (.nil _)))

theorem AttemptTalk.protocol {theme : String} (h : AttemptTalk e theme known calls known') :
    Protocol e known calls known' := by
  cases h with
  | unsupported => exact .nil _
  | refused hsupports hnew => exact .refused hsupports hnew (.nil _)
  | loaded hsupports hnew hcalls =>
      exact .loaded hsupports hnew (hcalls.protocol List.mem_cons_self)
  | ready _ hknown hcalls => exact hcalls.protocol hknown

/-- The calls of at most one attempt in a language: one language, one theme and
two renderings at most, of which the second follows at once on a rendering that
missed the theme and on the theme being loaded. -/
structure OneAttempt (e : Engine σ) (theme : String) (calls : List (Exchange σ)) : Prop where
  renders : calls.countP (·.call.isRender) ≤ 2
  languages : calls.countP (·.call.isLanguage) ≤ 1
  themes : calls.countP (·.call.isTheme) ≤ 1
  /-- All that is asked for is one language, which the engine supports when the
  attempt begins, and one theme. -/
  language : ∀ first rest, calls = first :: rest → ∃ l, e.supports first.before l = true ∧
    ∀ x ∈ calls, x.call = .language l ∨ x.call = .theme theme ∨ x.call = .render l theme
  again : ∀ front x back, calls = front ++ x :: back → x.call.isRender = true →
    (∃ y ∈ front, y.call.isRender = true) →
      ∃ before missed loaded, front = before ++ [missed, loaded] ∧ back = [] ∧
        missed.call = x.call ∧ missed.MissesTheme ∧
        loaded.call = .theme theme ∧ loaded.failure = none

/-- How a render call that is not the first of its talk came about. -/
theorem RenderTalk.again_of_append {s : σ} {l theme : String} (h : RenderTalk s l theme calls)
    {front back : List (Exchange σ)} {x : Exchange σ} (hcalls : calls = front ++ x :: back)
    (hx : x.call.isRender = true) (hfront : front ≠ []) :
    ∃ missed loaded, front = [missed, loaded] ∧ back = [] ∧ missed.call = x.call ∧
      missed.MissesTheme ∧ loaded.call = .theme theme ∧ loaded.failure = none := by
  cases h with
  | once =>
      match front with
      | [] => exact absurd rfl hfront
      | _ :: front => simp at hcalls
  | unloadable =>
      match front with
      | [] => exact absurd rfl hfront
      | [_] =>
          obtain ⟨-, rfl, -⟩ : _ ∧ _ = x ∧ _ := by simpa using hcalls
          cases hx
      | _ :: _ :: front => simp at hcalls
  | again hmissing =>
      match front with
      | [] => exact absurd rfl hfront
      | [_] =>
          obtain ⟨-, rfl, -⟩ : _ ∧ _ = x ∧ _ := by simpa using hcalls
          cases hx
      | [missed, loaded] =>
          obtain ⟨rfl, rfl, rfl, rfl⟩ : _ = missed ∧ _ = loaded ∧ _ = x ∧ [] = back := by
            simpa using hcalls
          exact ⟨_, _, rfl, rfl, rfl, ⟨_, rfl, hmissing⟩, rfl, rfl⟩
      | _ :: _ :: _ :: front => simp at hcalls

/-- How much is asked for in one rendering. -/
theorem RenderTalk.counts {s : σ} {l theme : String} (h : RenderTalk s l theme calls) :
    calls.countP (·.call.isRender) ≤ 2 ∧ calls.countP (·.call.isLanguage) = 0 ∧
      calls.countP (·.call.isTheme) ≤ 1 := by
  cases h <;> simp [EngineCall.isRender, EngineCall.isLanguage, EngineCall.isTheme]

theorem RenderTalk.call_eq {s : σ} {l theme : String} (h : RenderTalk s l theme calls) :
    ∀ x ∈ calls, x.call = .theme theme ∨ x.call = .render l theme := by
  cases h <;> simp

theorem RenderTalk.before_eq {s : σ} {l theme : String} (h : RenderTalk s l theme calls)
    {first : Exchange σ} {rest : List (Exchange σ)} (hcalls : calls = first :: rest) :
    first.before = s := by
  cases h <;> cases hcalls <;> rfl

/-- An attempt in which the language need not be loaded. -/
theorem RenderTalk.oneAttempt {s : σ} {l theme : String} (h : RenderTalk s l theme calls)
    (hsupports : e.supports s l = true) : OneAttempt e theme calls where
  renders := h.counts.1
  languages := by rw [h.counts.2.1]; exact Nat.zero_le 1
  themes := h.counts.2.2
  language first rest hcalls := by
    rw [h.before_eq hcalls]
    exact ⟨l, hsupports, fun x hx => Or.inr (h.call_eq x hx)⟩
  again front x back hcalls hx hearlier := by
    have hfront : front ≠ [] := by
      rintro rfl
      obtain ⟨y, hy, -⟩ := hearlier
      cases hy
    obtain ⟨missed, loaded, rfl, hrest⟩ := h.again_of_append hcalls hx hfront
    exact ⟨[], missed, loaded, rfl, hrest⟩

/-- An attempt that begins with the language, whether it can be loaded or
not. -/
theorem oneAttempt_cons_language {s : σ} {l theme : String} {failure : Option EngineError}
    (hsupports : e.supports s l = true) (h : calls = [] ∨ ∃ s', RenderTalk s' l theme calls) :
    OneAttempt e theme (⟨s, .language l, failure⟩ :: calls) := by
  have hcounts : calls.countP (·.call.isRender) ≤ 2 ∧ calls.countP (·.call.isLanguage) = 0 ∧
      calls.countP (·.call.isTheme) ≤ 1 := by
    rcases h with rfl | ⟨_, htalk⟩
    · simp
    · exact htalk.counts
  have hcall : ∀ x ∈ calls, x.call = .theme theme ∨ x.call = .render l theme := by
    rcases h with rfl | ⟨_, htalk⟩
    · simp
    · exact htalk.call_eq
  refine ⟨?_, ?_, ?_, ?_, ?_⟩
  · simpa [EngineCall.isRender] using hcounts.1
  · rw [List.countP_cons, hcounts.2.1]
    exact Nat.le_refl 1
  · simpa [EngineCall.isTheme] using hcounts.2.2
  · intro first rest hcalls
    obtain ⟨rfl, rfl⟩ := List.cons_eq_cons.mp hcalls
    refine ⟨l, hsupports, fun x hx => ?_⟩
    rcases List.mem_cons.mp hx with rfl | hrest
    · exact Or.inl rfl
    · exact Or.inr (hcall x hrest)
  · intro front x back hcalls hx hearlier
    cases front with
    | nil =>
        obtain ⟨rfl, -⟩ := List.cons_eq_cons.mp hcalls
        cases hx
    | cons head front =>
        obtain ⟨rfl, htail⟩ := List.cons_eq_cons.mp hcalls
        obtain ⟨y, hy, hrender⟩ := hearlier
        -- The earlier render is not the load in front, so the two renders are those of the
        -- talk behind it.
        have hyfront : y ∈ front := by
          rcases List.mem_cons.mp hy with rfl | hrest
          · cases hrender
          · exact hrest
        rcases h with rfl | ⟨_, htalk⟩
        · simp at htail
        · obtain ⟨missed, loaded, rfl, hrest⟩ :=
            htalk.again_of_append htail hx (List.ne_nil_of_mem hyfront)
          exact ⟨[_], missed, loaded, rfl, hrest⟩

theorem oneAttempt_nil (e : Engine σ) (theme : String) : OneAttempt e theme [] := by
  refine ⟨by simp, by simp, by simp, ?_, ?_⟩
  · intro first rest hcalls
    cases hcalls
  · intro front x back hcalls
    simp at hcalls

/-- **One attempt.** -/
theorem AttemptTalk.oneAttempt {theme : String} (h : AttemptTalk e theme known calls known') :
    OneAttempt e theme calls := by
  cases h with
  | unsupported => exact oneAttempt_nil e theme
  | refused hsupports _ => exact oneAttempt_cons_language hsupports (Or.inl rfl)
  | loaded hsupports _ hcalls => exact oneAttempt_cons_language hsupports (Or.inr ⟨_, hcalls⟩)
  | ready hsupports _ hcalls => exact hcalls.oneAttempt hsupports

namespace Pipeline

/-- `q` comes from `p` by some exchanges with the recorded engine. -/
structure Talks (e : Engine σ) (p q : Pipeline (σ × List (Exchange σ)))
    (calls : List (Exchange σ)) : Prop where
  engine : q.engine = e.recorded
  exchanges : q.exchanges = p.exchanges ++ calls

variable {τ : Type} {p q r : Pipeline (σ × List (Exchange σ))}

theorem Talks.refl (hp : p.engine = e.recorded) : Talks e p p [] :=
  ⟨hp, by simp⟩

theorem Talks.trans (h : Talks e p q calls) (h' : Talks e q r calls') :
    Talks e p r (calls ++ calls') :=
  ⟨h'.engine, by rw [h'.exchanges, h.exchanges, List.append_assoc]⟩

theorem supports_of_resolveLanguage {p : Pipeline τ} {language l : String}
    (h : p.resolveLanguage language = some l) : p.engine.supports p.state l = true := by
  unfold resolveLanguage at h
  dsimp only at h
  split at h
  · cases h
    assumption
  · exact (Option.filter_eq_some_iff.mp h).2

theorem talks_render (hp : p.engine = e.recorded) (code l theme : String) :
    Talks e p { p with state := (p.engine.render code l theme p.state).2 }
      [⟨p.state.1, .render l theme, failure? (p.engine.render code l theme p.state).1⟩] := by
  rw [hp]
  exact ⟨rfl, rfl⟩

/-- A theme that was found missing is loaded. -/
theorem talks_ensureTheme_forgetTheme (hp : p.engine = e.recorded) (theme : String)
    (s : σ × List (Exchange σ)) :
    Talks e { p with state := s } ((ensureTheme theme).run (p.forgetTheme theme s)).2
      [⟨s.1, .theme theme, failure? ((ensureTheme theme).run (p.forgetTheme theme s)).1⟩] ∧
    ((ensureTheme theme).run (p.forgetTheme theme s)).2.languages = p.languages := by
  rw [ensureTheme_run_forgetTheme, hp, recorded_loadTheme]
  dsimp only
  cases (e.loadTheme theme s.1).1 <;> exact ⟨⟨hp, rfl⟩, rfl⟩

/-- Rendering in a loaded language. -/
theorem talks_renderLoaded (hp : p.engine = e.recorded) (code l theme : String) :
    ∃ calls, Talks e p ((renderLoaded code l theme).run p).2 calls ∧
      RenderTalk p.state.1 l theme calls ∧
      ((renderLoaded code l theme).run p).2.languages = p.languages := by
  have hfirst := talks_render hp code l theme
  rw [renderLoaded_run]
  generalize p.engine.render code l theme p.state = x at hfirst ⊢
  obtain ⟨result, s⟩ := x
  cases result with
  | ok d => exact ⟨_, hfirst, .once (by rintro ⟨_, ⟨⟩, _⟩), rfl⟩
  | error missing =>
      dsimp only
      split
      · rename_i hmissing
        obtain ⟨hload, hsame⟩ := talks_ensureTheme_forgetTheme hp theme s
        generalize (ensureTheme theme).run (p.forgetTheme theme s) = y at hload hsame ⊢
        obtain ⟨loaded, q⟩ := y
        cases loaded with
        | error failure => exact ⟨_, hfirst.trans hload, .unloadable hmissing, hsame⟩
        | ok u =>
            have hsecond := talks_render hload.engine code l theme
            dsimp only
            rw [call_run]
            exact ⟨_, (hfirst.trans hload).trans hsecond, .again hmissing, hsame⟩
      · rename_i hother
        exact ⟨_, hfirst, .once (by rintro ⟨_, ⟨⟩, h⟩; exact hother h), rfl⟩

/-- Loading a language that is not known. -/
theorem talks_ensureLanguage (hp : p.engine = e.recorded) {l : String} (hl : l ∉ p.languages) :
    Talks e p ((ensureLanguage l).run p).2
      [⟨p.state.1, .language l, failure? ((ensureLanguage l).run p).1⟩] ∧
    ((ensureLanguage l).run p).2.languages =
      match ((ensureLanguage l).run p).1 with
      | .ok _ => l :: p.languages
      | .error _ => p.languages := by
  have hnew : p.languages.contains l = false := by simpa using hl
  rw [ensureLanguage_run, hnew, hp, recorded_loadLanguage]
  cases (e.loadLanguage l p.state.1).1 with
  | ok u => exact ⟨⟨rfl, rfl⟩, by simp [addName, hl]⟩
  | error error => exact ⟨⟨rfl, rfl⟩, rfl⟩

/-- **An attempt** talks as attempts do. -/
theorem talks_attempt (hp : p.engine = e.recorded) (code language theme : String) :
    ∃ calls, Talks e p ((attempt code language theme).run p).2 calls ∧
      AttemptTalk e theme p.languages calls ((attempt code language theme).run p).2.languages := by
  rw [attempt_run]
  cases hresolved : p.resolveLanguage language with
  | none => exact ⟨[], Talks.refl hp, .unsupported⟩
  | some l =>
      have hsupports : e.supports p.state.1 l = true := by
        have h := supports_of_resolveLanguage hresolved
        rw [hp] at h
        exact h
      dsimp only
      by_cases hl : l ∈ p.languages
      · obtain ⟨calls, htalks, hcalls, hsame⟩ := talks_renderLoaded hp code l theme
        rw [ensureLanguage_run, if_pos (by simpa using hl)]
        dsimp only
        rw [hsame]
        exact ⟨calls, htalks, .ready hsupports hl hcalls⟩
      · obtain ⟨hload, hlanguages⟩ := talks_ensureLanguage hp hl
        generalize (ensureLanguage l).run p = x at hload hlanguages ⊢
        obtain ⟨loaded, q⟩ := x
        cases loaded with
        | error error =>
            dsimp only at hlanguages ⊢
            rw [hlanguages]
            exact ⟨_, hload, .refused hsupports hl⟩
        | ok u =>
            obtain ⟨calls, htalks, hcalls, hsame⟩ := talks_renderLoaded hload.engine code l theme
            dsimp only at hlanguages ⊢
            rw [hsame, hlanguages]
            exact ⟨_, hload.trans htalks, .loaded hsupports hl hcalls⟩

/-- **The chain of fallbacks** makes two attempts at most. -/
theorem talks_renderSomehow (hp : p.engine = e.recorded) (code language theme : String) :
    ∃ first second known, Talks e p (renderSomehow code language theme p).2 (first ++ second) ∧
      AttemptTalk e theme p.languages first known ∧
      AttemptTalk e theme known second (renderSomehow code language theme p).2.languages := by
  obtain ⟨first, htalks, hfirst⟩ := talks_attempt hp code language theme
  rw [renderSomehow_run]
  generalize (attempt code language theme).run p = x at htalks hfirst ⊢
  obtain ⟨result, q⟩ := x
  cases result with
  | ok d =>
      refine ⟨first, [], q.languages, ?_, hfirst, .unsupported⟩
      rw [List.append_nil]
      exact htalks
  | error error =>
      obtain ⟨second, htalks', hsecond⟩ :=
        talks_attempt htalks.engine code q.settings.fallbackLanguage theme
      dsimp only at htalks' hsecond ⊢
      generalize (attempt code q.settings.fallbackLanguage theme).run q = x at htalks' hsecond ⊢
      obtain ⟨result, r⟩ := x
      cases result <;> exact ⟨first, second, q.languages, htalks.trans htalks', hfirst, hsecond⟩

/-- The cache answers for a source. -/
def Hits (p : Pipeline τ) (code language theme : String) (now : Nat) : Prop :=
  p.settings.cacheEnabled = true ∧
    (p.cache.get (.of code language theme) code now).1.isSome = true

/-- **A block.**  If the cache finds it, the engine is not asked at all. -/
theorem talks_highlighted (hp : p.engine = e.recorded) (code language theme : String)
    (now : Nat) :
    ∃ first second known,
      Talks e p (highlighted code language theme now p).2 (first ++ second) ∧
        AttemptTalk e theme p.languages first known ∧
        AttemptTalk e theme known second (highlighted code language theme now p).2.languages ∧
        (p.Hits code language theme now → first ++ second = []) := by
  rcases highlighted_cases code language theme now p with
    ⟨hdisabled, heq⟩ | ⟨henabled, d, hfound, heq⟩ | ⟨henabled, hmiss, heq⟩
  · obtain ⟨first, second, known, htalks, hfirst, hsecond⟩ :=
      talks_renderSomehow hp code language theme
    rw [heq]
    refine ⟨first, second, known, htalks, hfirst, hsecond, ?_⟩
    rintro ⟨henabled, -⟩
    rw [hdisabled] at henabled
    cases henabled
  · rw [heq]
    exact ⟨[], [], p.languages, ⟨hp, (List.append_nil _).symm⟩, .unsupported, .unsupported,
      fun _ => rfl⟩
  · obtain ⟨first, second, known, htalks, hfirst, hsecond⟩ :=
      talks_renderSomehow (p := p.afterGet code language theme now) hp code language theme
    rw [heq]
    refine ⟨first, second, known, ⟨htalks.engine, htalks.exchanges⟩, hfirst, hsecond, ?_⟩
    rintro ⟨-, hfound⟩
    rw [hmiss] at hfound
    cases hfound

/-- The languages that count as loaded are those that the protocol has
loaded. -/
structure InProtocol (e : Engine σ) (p : Pipeline (σ × List (Exchange σ))) : Prop where
  engine : p.engine = e.recorded
  protocol : Protocol e [] p.exchanges p.languages

/-- A talk that keeps to the protocol goes on with it. -/
theorem InProtocol.talk (hp : InProtocol e p) (htalks : Talks e p q calls)
    (hcalls : Protocol e p.languages calls q.languages) : InProtocol e q := by
  refine ⟨htalks.engine, ?_⟩
  rw [htalks.exchanges]
  exact hp.protocol.append hcalls

theorem InProtocol.preloadTheme (hp : InProtocol e p) (theme : String) :
    InProtocol e ((ensureTheme theme).run p).2 := by
  rw [ensureTheme_run, hp.engine, recorded_loadTheme]
  split
  · exact hp
  · have hcalls : Protocol e p.languages
        [⟨p.state.1, .theme theme, failure? (e.loadTheme theme p.state.1).1⟩] p.languages :=
      .theme (.nil _)
    have hprotocol := hp.protocol.append hcalls
    generalize e.loadTheme theme p.state.1 = x at hprotocol ⊢
    obtain ⟨result, s⟩ := x
    cases result <;> exact ⟨rfl, hprotocol⟩

theorem InProtocol.preloadLanguage (hp : InProtocol e p) (language : String) :
    InProtocol e (preloadLanguage language p).2 := by
  rw [preloadLanguage_run]
  cases hresolved : p.resolveLanguage language with
  | none => exact hp
  | some l =>
      have hsupports : e.supports p.state.1 l = true := by
        have h := supports_of_resolveLanguage hresolved
        rw [hp.engine] at h
        exact h
      rw [Option.elim_some]
      by_cases hl : l ∈ p.languages
      · rw [ensureLanguage_run, if_pos (by simpa using hl)]
        exact hp
      · obtain ⟨hload, hlanguages⟩ := talks_ensureLanguage hp.engine hl
        refine hp.talk hload ?_
        rw [hlanguages]
        cases ((ensureLanguage l).run p).1 with
        | ok u => exact .loaded hsupports hl (.nil _)
        | error error => exact .refused hsupports hl (.nil _)

theorem InProtocol.updateSettings (hp : InProtocol e p) (s : Settings) :
    InProtocol e (p.updateSettings s) := by
  have hcalls : Protocol e p.languages [⟨p.state.1, .settings, none⟩] p.languages :=
    .settings (.nil _)
  have hprotocol := hp.protocol.append hcalls
  unfold Pipeline.updateSettings
  rw [hp.engine]
  exact ⟨rfl, hprotocol⟩

/-- **Invariant.**  Every operation keeps to the protocol. -/
theorem lasting_inProtocol (e : Engine σ) :
    Session.Lasting fun x : Session (σ × List (Exchange σ)) => InProtocol e x.pipeline where
  preload x hx := by
    have hthemes : InProtocol e
        ((preloadThemes x.pipeline.settings).forM Pipeline.preloadTheme x.pipeline).2 :=
      Kept.forM (fun t q hq => hq.preloadTheme t) _ hx
    change InProtocol e ((if x.pipeline.settings.lazyLoading then pure () else
      x.pipeline.settings.languages.forM Pipeline.preloadLanguage : StateM _ _) _).2
    split
    · exact hthemes
    · exact Kept.forM (fun l q hq => hq.preloadLanguage l) _ hthemes
  highlighted code language theme x hx := by
    obtain ⟨first, second, known, htalks, hfirst, hsecond, -⟩ :=
      talks_highlighted hx.engine code language theme x.now
    exact hx.talk htalks (hfirst.protocol.append hsecond.protocol)
  setMode _ _ hx := ⟨hx.engine, hx.protocol⟩
  clearCache _ hx := ⟨hx.engine, hx.protocol⟩
  wait _ _ hx := hx

end Pipeline

/-- The source, the language and the theme that an operation has to show, if it
is one that shows code. -/
def Operation.request? {τ : Type} (p : Pipeline τ) : Operation → Option (String × String × String)
  | .render code language config asked => some (code, language, p.resolveTheme config asked)
  | .renderInline code language => some (code, language, p.resolveTheme { language } none)
  | _ => none

namespace Session

open Pipeline

/-- An operation that shows code leaves the pipeline as the highlighted source
does. -/
theorem step_of_request? {τ : Type} {x : Session τ} {o : Operation}
    {code language theme : String}
    (h : o.request? x.pipeline = some (code, language, theme)) :
    (x.step o).pipeline = (highlighted code language theme x.now x.pipeline).2 := by
  cases o <;> cases h <;> rfl

/-- **The protocol of engine calls.**  However an engine answers, through any
history of operations and new settings: recording what it is asked does not
change the session; a source is rendered only in a language that the engine
supported and that was loaded before; no loaded language is loaded again; and
the next operation that shows code asks nothing if the cache finds the code,
and otherwise makes two attempts at most, of which each renders a second time
only right after its theme was missing and has been loaded. -/
theorem exchanges_live (e : Engine σ) (state : σ) (s : Settings) (events : List Event) :
    let x := (start e.recorded (state, []) s).live events
    (start e state s).live events = x.unrecorded e ∧
    (∀ earlier call later l theme,
      x.pipeline.exchanges = earlier ++ call :: later → call.call = .render l theme →
        ∃ y ∈ earlier, y.Loads l ∧ e.supports y.before l = true) ∧
    (∀ earlier call later l,
      x.pipeline.exchanges = earlier ++ call :: later → call.Loads l →
        ∀ y ∈ later, y.call ≠ .language l) ∧
    ∀ o code language theme, o.request? x.pipeline = some (code, language, theme) →
      ∃ first second,
        (x.step o).pipeline.exchanges = x.pipeline.exchanges ++ (first ++ second) ∧
        (x.pipeline.Hits code language theme x.now → first ++ second = []) ∧
        OneAttempt e theme first ∧ OneAttempt e theme second ∧
        (first ++ second).countP (·.call.isRender) ≤ 4 ∧
        (first ++ second).countP (·.call.isLanguage) ≤ 2 ∧
        (first ++ second).countP (·.call.isTheme) ≤ 2 := by
  intro x
  have hstart : InProtocol e (start e.recorded (state, []) s).pipeline := ⟨rfl, .nil _⟩
  have hx : InProtocol e x.pipeline :=
    (lasting_inProtocol e).live (fun s _ hy => hy.updateSettings s) hstart events
  refine ⟨unrecorded_live e state s events, ?_, ?_, ?_⟩
  · intro earlier call later l theme hcalls hcall
    rcases hx.protocol.loaded_before_render hcalls hcall with hknown | hloaded
    · cases hknown
    · exact hloaded
  · intro earlier call later l hcalls hloads
    exact hx.protocol.not_language_after_load hcalls hloads
  · intro o code language theme hrequest
    obtain ⟨first, second, known, htalks, hfirst, hsecond, hhit⟩ :=
      talks_highlighted hx.engine code language theme x.now
    have hone := hfirst.oneAttempt
    have htwo := hsecond.oneAttempt
    rw [step_of_request? hrequest]
    refine ⟨first, second, htalks.exchanges, hhit, hone, htwo, ?_, ?_, ?_⟩
    · rw [List.countP_append]
      exact Nat.add_le_add hone.renders htwo.renders
    · rw [List.countP_append]
      exact Nat.add_le_add hone.languages htwo.languages
    · rw [List.countP_append]
      exact Nat.add_le_add hone.themes htwo.themes

/-- An engine that forgets every theme at once is asked for as much as can be. -/
example :
    let x := (start (Script.engine { forgetful := true }).recorded ([], []) {}).step
      (.render "x" "rust" { language := "rust" } none)
    x.pipeline.exchanges.map (·.call) =
      [.language "rust", .render "rust" "dark-plus", .theme "dark-plus",
        .render "rust" "dark-plus", .language "text", .render "text" "dark-plus",
        .theme "dark-plus", .render "text" "dark-plus"] := by
  decide +kernel

end Session

end CodeFence
