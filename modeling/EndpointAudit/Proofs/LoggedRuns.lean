import EndpointAudit.Proofs.Footprints
import EndpointAudit.Proofs.LoggedCalls
import Mathlib.Data.Set.Card

namespace EndpointAudit

open EndpointAudit.Path FileTree Relation Session Act

namespace Session

variable {s : Session} {S : Location} {t : FileTree} {time : String} {noted : List CallLog.Entry}

/-- If all entries fit, there are as many files as entries. -/
theorem Logbook.count (h : s.Logbook S time noted t)
    (hf : ∀ {k e}, noted[k]? = some e → s.Fits (k + 1) e.endpoint) :
    {name | ∃ n, t.node? (S ++ ["logs","llm",name]) = some n}.ncard = noted.length := by
  have hnames : {name | ∃ n, t.node? (S ++ ["logs","llm",name]) = some n} =
      Set.range fun k : Fin noted.length => CallLog.fileName (k + 1) noted[k].endpoint := by
    ext name
    constructor
    · intro ⟨n,hn⟩
      have hplace : S ++ ["logs","llm",name] = S ++ ["logs","llm"] ++ [name] := by simp
      rw [hplace] at hn
      obtain ⟨k,e,hk,_,hname⟩ := h.only (by simp) hn
      obtain ⟨hlt,rfl⟩ := List.getElem?_eq_some_iff.mp hk
      exact ⟨⟨k,hlt⟩,(List.singleton_inj.mp hname).symm⟩
    · rintro ⟨k,rfl⟩
      have hk : noted[k.val]? = some noted[k] := List.getElem?_eq_getElem k.isLt
      obtain ⟨x,hx⟩ := h.holds hk (hf hk)
      exact ⟨_,hx⟩
  have hinjective : Function.Injective fun k : Fin noted.length =>
      CallLog.fileName (k + 1) noted[k].endpoint := by
    intro i j he
    have hnumber := CallLog.fileName_number he
    exact Fin.ext (by omega)
  rw [hnames,← Nat.card_coe_set_eq,Nat.card_range_of_injective hinjective,Nat.card_fin]

end Session

namespace Stages

variable {s : Session} {S : Location} {time : String} {c : Context} {w : World} {tools : List Toolchain}

/-- The lookups of a batch note no calls. -/
theorem Serves.aside {generator : Model.Generator} {services : Analysis.Services}
    (h : Serves tools generator s services)
    (hlook : ∀ {tool}, tool ∈ tools → ∀ root symbol t, s.Spares S t (tool.lookup root symbol t).files)
    (symbol : String) (w : World) : Aside s S w (services.definition symbol w).2 := by
  obtain ⟨tool,hm,hfiles⟩ := h.definition_files symbol w
  refine ⟨?_,rfl,rfl⟩
  rw [hfiles]
  exact hlook hm services.root symbol w.files

end Stages

namespace Pipeline

open EndpointAudit.Graph Stages

variable {p : Pipeline} {g : Graph World} {s : Session} {S : Location} {time : String} {c : Context}
  {w : World}

/-- No stage before the analysis finds findings in the context. -/
def Unanswered (name : String) (c : Context) : Prop :=
  name = detectionName ∨ name = extractionName → c.findings = []

theorem Onward.unanswered {rounds : Nat} {name next : String} {made : List Model.Call} {patch : Patch}
    (h : Onward rounds c name made patch next) (hu : Unanswered name c) :
    Unanswered next (c.apply patch) := by
  cases h with
  | detected project => exact fun _ => hu (.inl rfl)
  | extracted endpoints => exact fun _ => rfl
  | analyzed answered =>
    intro hx
    exact absurd hx (by decide)
  | reopened report left =>
    intro hx
    exact absurd hx (by decide)

/-- Whether a run in the shop has its session in `/s/t`, and what it ends with. -/
def ends (p : Pipeline) (test : Ended → World → Bool) : Bool :=
  match (start p.settings "audit").run.run shopWorld with
  | (.ok c,w) =>
    c.session == some ⟨"t","/s/t"⟩ && test ((p.execute c).run w).1 ((p.execute c).run w).2
  | _ => false

end Pipeline

end EndpointAudit
