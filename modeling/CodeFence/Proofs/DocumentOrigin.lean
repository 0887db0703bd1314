import CodeFence.Engine.Bundled
import CodeFence.Proofs.PipelineSession

/-!
# Where documents come from

Every document that a pipeline answers was rendered by its engine, now or some
time ago, or it is plain text.  So whatever holds of these two holds of every
answer, through any history.

* `Vouches` — a property of a document and its source that every rendering of
  an engine has, and plain text too;
* `Supplied` — the cache holds nothing without that property;
* `supplied_live` — through any history it stays so;
* `Vouches.highlighted` — and then every answer has it;
* `Bundled.exists_renderDocument` — what the bundled engine renders.
-/

namespace CodeFence

open Markup

variable {σ : Type}

/-- What an engine renders of a source has a property, and plain text has it. -/
structure Vouches (engine : Engine σ) (P : Document → String → Prop) : Prop where
  rendered : ∀ code language theme state d,
    (engine.render code language theme state).1 = .ok d → P d code
  plain : ∀ code, P (Document.plain code) code

namespace Pipeline

variable {engine : Engine σ} {P : Document → String → Prop} {p : Pipeline σ}

/-- A pipeline over an engine, in whose cache every document has a property. -/
structure Supplied (engine : Engine σ) (P : Document → String → Prop) (p : Pipeline σ) :
    Prop where
  engine : p.engine = engine
  entries : ∀ k e, p.cache.find? k = some e → P e.document e.source

theorem supplied_iff :
    Supplied engine P p ↔ p.engine = engine ∧
      ∀ k e, p.cache.find? k = some e → P e.document e.source := by
  constructor
  · intro hp
    exact ⟨hp.engine, hp.entries⟩
  · rintro ⟨hengine, hentries⟩
    exact ⟨hengine, hentries⟩

theorem supplied_start (engine : Engine σ) (P : Document → String → Prop) (state : σ)
    (s : Settings) : Supplied engine P (start engine state s) := by
  refine ⟨rfl, ?_⟩
  intro k e he
  cases he

end Pipeline

namespace Vouches

open Pipeline

variable {engine : Engine σ} {P Q : Document → String → Prop} {p : Pipeline σ}

theorem and (hP : Vouches engine P) (hQ : Vouches engine Q) :
    Vouches engine fun d code => P d code ∧ Q d code where
  rendered code language theme state d h :=
    ⟨hP.rendered code language theme state d h, hQ.rendered code language theme state d h⟩
  plain code := ⟨hP.plain code, hQ.plain code⟩

/-- Whatever becomes of a source in the chain of fallbacks has the property. -/
theorem renderSomehow (h : Vouches engine P) (hp : p.engine = engine)
    (code language theme : String) :
    P (Pipeline.renderSomehow code language theme p).1.1 code := by
  rcases renderSomehow_fst code language theme p with ⟨resolved, state, hrendered⟩ | hplain
  · rw [hp] at hrendered
    exact h.rendered _ _ _ _ _ hrendered
  · rw [hplain]
    exact h.plain code

/-- **Every answer** has the property, whether it is found in the cache or
made. -/
theorem highlighted (h : Vouches engine P) (hp : Supplied engine P p)
    (code language theme : String) (now : Nat) :
    P (Pipeline.highlighted code language theme now p).1.1 code := by
  rcases highlighted_cases code language theme now p with
    ⟨-, heq⟩ | ⟨-, d, hfound, heq⟩ | ⟨-, -, heq⟩
  · rw [heq]
    exact h.renderSomehow hp.engine code language theme
  · obtain ⟨e, hentry, -, -, rfl, rfl⟩ := Cache.get_eq_some_iff.mp hfound
    rw [heq]
    exact hp.entries _ e hentry
  · have hengine : (p.afterGet code language theme now).engine = engine := hp.engine
    have hmade := h.renderSomehow hengine code language theme
    rw [heq]
    exact hmade

end Vouches

namespace Pipeline

variable {engine : Engine σ} {P : Document → String → Prop} {p : Pipeline σ}

/-- New settings bring no document into the cache. -/
theorem Supplied.updateSettings (hp : Supplied engine P p) (s : Settings) :
    Supplied engine P (p.updateSettings s) := by
  refine ⟨hp.engine, ?_⟩
  intro k e he
  unfold Pipeline.updateSettings at he
  dsimp only at he
  split at he
  · cases he
  · exact hp.entries k e ((Cache.within_setCapacity _ _).find? k e he)

/-- **Invariant.**  Every operation leaves the cache without anything that does
not have the property. -/
theorem lasting_supplied (h : Vouches engine P) :
    Session.Lasting fun x : Session σ => Supplied engine P x.pipeline := by
  have hframed : Framed fun p : Pipeline σ => p.engine = engine :=
    framed_of_frame fun e _ => e = engine
  simp only [supplied_iff]
  refine lasting_entries hframed ?_
  intro code language theme _ p hp
  exact h.renderSomehow hp code language theme

end Pipeline

namespace Session

open Pipeline

/-- Through any history, nothing gets into the cache without the property. -/
theorem supplied_live {engine : Engine σ} {P : Document → String → Prop}
    (h : Vouches engine P) (state : σ) (s : Settings) (events : List Event) :
    Supplied engine P ((start engine state s).live events).pipeline :=
  (lasting_supplied h).live (fun s _ hx => hx.updateSettings s)
    (supplied_start engine P state s) events

end Session

/-- Whatever the bundled engine renders of a source is a colored block for it. -/
theorem Bundled.exists_renderDocument {analyse : Syntax.Analysis} {around : Surroundings}
    {code language theme : String} {b : Bundled} {d : Document}
    (h : ((engineWith analyse around).render code language theme b).1 = .ok d) :
    ∃ highlights t, d = renderDocument code highlights t := by
  change render analyse code language theme b = .ok d at h
  unfold render at h
  split at h
  · cases h
  · split at h
    · split at h
      · cases h
        exact ⟨_, _, rfl⟩
      · cases h
    · cases h

end CodeFence
