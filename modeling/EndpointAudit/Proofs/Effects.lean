import EndpointAudit.Proofs.FinalReport
import EndpointAudit.Proofs.Moves
import EndpointAudit.Proofs.OwnPlaces
import EndpointAudit.Proofs.Unsupported

namespace EndpointAudit

open Relation

namespace Act

variable {σ α β : Type} {R : σ → σ → Prop} {P : α → Prop} {Q : β → Prop}

/-- Whatever the action does to the world, even if it fails, it does in steps of a kind; and it returns
only what it may. -/
def Follows (R : σ → σ → Prop) (P : α → Prop) (x : Act σ α) : Prop :=
  ∀ w, ReflTransGen R w (x.run.run w).2 ∧ ∀ a, (x.run.run w).1 = .ok a → P a

namespace Follows

theorem ofPure {a : α} (h : P a) : Follows R P (pure a : Act σ α) := by
  intro w
  refine ⟨.refl,?_⟩
  intro b hx
  cases hx
  exact h

theorem ofThrow (e : Error) : Follows R P (throw e : Act σ α) := by
  intro w
  refine ⟨.refl,?_⟩
  intro b hx
  cases hx

theorem ofExcept {r : Except Error α} (h : ∀ a, r = .ok a → P a) :
    Follows R P (MonadExcept.ofExcept r : Act σ α) := by
  cases r with
  | error e => exact ofThrow e
  | ok a => exact ofPure (h a rfl)

theorem ofBind {x : Act σ α} {f : α → Act σ β} (h : Follows R P x)
    (hf : ∀ a, P a → Follows R Q (f a)) : Follows R Q (x >>= f) := by
  intro w
  obtain ⟨hr,ha⟩ := h w
  rw [run_seq]
  rcases hx : x.run.run w with ⟨answer,w'⟩
  rw [hx] at hr ha
  cases answer with
  | error e =>
    refine ⟨hr,?_⟩
    intro b hx
    cases hx
  | ok a =>
    obtain ⟨hr',hb⟩ := hf a (ha a rfl) w'
    exact ⟨hr.trans hr',hb⟩

end Follows

end Act

open Act

section Files

variable {α : Type} {R : World → World → Prop}

end Files

namespace Session

/-- The steps that a run with a session takes outside of its analysis: it leaves files at its places and
has a tool extract endpoints. -/
structure Ruled (s : Session) (tools : List Toolchain) (R : World → World → Prop) : Prop where
  leaves : ∀ {w name value path files}, OwnFile [name] →
    s.writeJson w.files name value = .ok (path,files) → ReflTransGen R w { w with files }
  snapshots : ∀ {w number stage value path files}, stage ∈ stageNames →
    s.writeJson w.files (Pipeline.snapshotFile number stage) value = .ok (path,files) →
    ReflTransGen R w { w with files }
  extracts : ∀ {tool}, tool ∈ tools → ∀ root w, ReflTransGen R w
    { w with
      files := (tool.extract root s.dir w.files).files
      cancelled := w.cancelled || (tool.extract root s.dir w.files).stops }

end Session

namespace Stages

variable {s : Session} {c : Context} {tools : List Toolchain} {R : World → World → Prop}

/-- The services that the analysis of a context uses. -/
structure Serves (tools : List Toolchain) (generator : Model.Generator) (s : Session)
    (services : Analysis.Services) : Prop where
  tool : ∃ tool ∈ tools, services.lookup = tool.lookup
  model : services.generator = generator
  log : services.callDir = some s.callDir

/-- What a lookup does to the files is up to one of the tools. -/
theorem Serves.definition_files {generator : Model.Generator} {services : Analysis.Services}
    (h : Serves tools generator s services) (symbol : String) (w : World) : ∃ tool ∈ tools,
      (services.definition symbol w).2.files = (tool.lookup services.root symbol w.files).files := by
  obtain ⟨tool,hm,hlookup⟩ := h.tool
  refine ⟨tool,hm,?_⟩
  unfold Analysis.Services.definition
  rw [hlookup]

end Stages

namespace Analysis

variable {services : Services} {R : World → World → Prop}

/-- The steps that a batch takes: it looks up symbols, asks the model and notes the answers, and the run
may be cancelled meanwhile. -/
structure Services.Ruled (services : Services) (R : World → World → Prop) : Prop where
  looks : ∀ symbol w, ReflTransGen R w (services.definition symbol w).2
  asks : ∀ i g w, ReflTransGen R w (services.answer i g w).2
  notes : ∀ e w, ReflTransGen R w (services.log e w)
  cancels : ∀ w, ReflTransGen R w { w with cancelled := true }

theorem Task.Steps.follows {α : Type} {t t' : Task α} {w w' : World} (h : t.Steps services w t' w')
    (hr : services.Ruled R) : ReflTransGen R w w' := by
  cases h with
  | read | unreadable => exact .refl
  | @found symbol _ _ _ _ looked
  | @broken symbol _ _ _ _ looked =>
    have h := hr.looks symbol w
    rwa [looked] at h
  | @completed i g _ _ _ _ asked
  | @refused i g _ _ _ _ asked
  | @crashed i g _ _ _ _ asked =>
    have h := hr.asks i g w
    rwa [asked] at h
  | noted => exact hr.notes _ w

theorem Pool.Moves.follows {plan : Plan} {mayCancel : Prop} {a b : Pool × World}
    (h : Pool.Moves plan services mayCancel a b) (hr : services.Ruled R) : ReflTransGen R a.2 b.2 := by
  induction h with
  | refl => exact .refl
  | tail _ move ih =>
    refine ih.trans ?_
    cases move with
    | cancel => exact hr.cancels _
    | task change =>
      cases change with
      | start | skip | finish => exact .refl
      | step steps => exact steps.follows hr

end Analysis

namespace Stages

variable {s : Session} {c : Context} {R : World → World → Prop}

end Stages

namespace Pipeline

open EndpointAudit.Graph Stages

variable {p : Pipeline} {g : Graph World} {s : Session} {c : Context} {R : World → World → Prop}

/-- The steps that a whole run takes. -/
structure Ruled (p : Pipeline) (s : Session) (R : World → World → Prop) : Prop
    extends s.Ruled p.toolchains R where
  serves : ∀ {services}, Serves p.toolchains p.models.answer s services → services.Ruled R
  reports : ∀ w progress turns refusals, ReflTransGen R w { w with progress, turns, refusals }
  polls : ∀ w, ReflTransGen R w (World.poll.run w).2

end Pipeline

end EndpointAudit
