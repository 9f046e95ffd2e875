import EndpointAudit.Finding
import EndpointAudit.Project
import EndpointAudit.Proofs.Restoration

namespace EndpointAudit

open Json

namespace Json

/-- A whole number that 64 bits hold, with a sign or without. -/
def Number.Integral : Number → Prop
  | .nat n => n ≤ maxWord
  | .negative n => 0 < n ∧ n ≤ maxWord / 2 + 1
  | .double _ => False
  | .single _ => False

theorem Number.Integral.exact {n : Number} (h : n.Integral) : n.Exact := by
  cases n with
  | nat n => exact exact_nat h
  | negative n => exact exact_negative h.1 h.2
  | double bits => cases h
  | single bits => cases h

theorem WellFormed.exact {depth : Nat} {v : Json} (h : WellFormed Number.Integral depth v) :
    WellFormed Number.Exact depth v :=
  h.imp fun _ => Number.Integral.exact

theorem restores_texts (ss : List String) : Restores (Decoder.list Decoder.text) (.ofTexts ss) ss :=
  restores_list fun s _ => restores_text s

end Json

/-- A request as a dictionary of parameters and a body of any values: the names ascend, and the numbers
are whole ones of 64 bits. -/
structure Request.Storable (r : Request) : Prop where
  query : r.query.Pairwise fun e e' => e.1 < e'.1
  body : ∃ depth, WellFormed Number.Integral depth (.object r.body)

theorem Request.Storable.restores_body {r : Request} (h : r.Storable) :
    Restores (Decoder.dictionary Decoder.value) (.object r.body) r.body := by
  obtain ⟨depth,hbody⟩ := h.body
  cases hbody with
  | object sorted each =>
    have heach : ∀ m ∈ r.body, Restores Decoder.value (id m.2) m.2 :=
      fun m hm => restores_value (each m hm).exact
    have hdictionary := restores_dictionary sorted heach
    simp only [id,List.map_id'] at hdictionary
    exact hdictionary

theorem Request.Storable.restores {r : Request} (h : r.Storable) :
    Restores Request.record.decoder r.toJson r :=
  Record.takes_constant Request.mk
    |>.required (restores_text r.method) (by decide)
    |>.required (restores_text r.path) (by decide)
    |>.defaulting (restores_dictionary h.query fun e _ => restores_text e.2) (by decide)
    |>.defaulting h.restores_body (by decide)
    |>.restores

def Endpoint.Storable (e : Endpoint) : Prop :=
  e.request.Storable

theorem Endpoint.Storable.restores {e : Endpoint} (h : e.Storable) :
    Restores Endpoint.decoder e.toJson e :=
  Record.takes_constant Endpoint.mk
    |>.required (restores_text e.controller) (by decide)
    |>.required (restores_text e.handler) (by decide)
    |>.required (restores_text e.position) (by decide)
    |>.defaulting (restores_text e.declaredMethod) (by decide)
    |>.required (Request.Storable.restores h) (by decide)
    |>.defaulting (restores_texts e.references) (by decide)
    |>.restores

def SourceFile.Storable (f : SourceFile) : Prop :=
  f.size ≤ maxWord

theorem SourceFile.Storable.restores {f : SourceFile} (h : f.Storable) :
    Restores SourceFile.record.decoder f.toJson f :=
  Record.takes_constant SourceFile.mk
    |>.required (restores_text f.path) (by decide)
    |>.requiredAs (restores_word h) (by decide)
    |>.required (restores_text f.kind) (by decide)
    |>.restores

def Project.Storable (p : Project) : Prop :=
  ∀ f ∈ p.files, f.Storable

theorem Project.Storable.restores {p : Project} (h : p.Storable) :
    Restores Project.record.decoder p.toJson p :=
  Record.takes_constant Project.mk
    |>.required (restores_text p.kind) (by decide)
    |>.required (restores_text p.root) (by decide)
    |>.required (restores_list fun f hf => (h f hf).restores) (by decide)
    |>.restores

theorem Verdict.restores (v : Verdict) : Restores Verdict.decoder (.text v.name) v :=
  ⟨.text v.name,fun _ _ => by cases v <;> rfl⟩

structure Finding.Storable (f : Finding) : Prop where
  index : f.index ≤ maxWord
  endpoint : f.endpoint.Storable

theorem Finding.Storable.restores {f : Finding} (h : f.Storable) :
    Restores Finding.record.decoder f.toJson f :=
  Record.takes_constant Finding.mk
    |>.required (restores_word h.index) (by decide)
    |>.required h.endpoint.restores (by decide)
    |>.required (restores_text f.text) (by decide)
    |>.required f.verdict.restores (by decide)
    |>.restores

structure Report.Storable (r : Report) : Prop where
  total : r.total ≤ maxWord
  findings : ∀ f ∈ r.findings, f.Storable

theorem Report.Storable.restores {r : Report} (h : r.Storable) :
    Restores Report.record.decoder r.toJson r :=
  Record.takes_constant Report.mk
    |>.required (restores_word h.total) (by decide)
    |>.required (restores_text r.overview) (by decide)
    |>.required (restores_texts r.recommendations) (by decide)
    |>.required (restores_list fun f hf => (h.findings f hf).restores) (by decide)
    |>.restores

theorem Project.nesting_le_maxNesting (p : Project) : p.toJson.nesting ≤ maxNesting := by
  have hfiles : ∀ v ∈ p.files.map SourceFile.toJson, v.nesting ≤ 1 := by
    intro v hv
    obtain ⟨f,_,rfl⟩ := List.mem_map.mp hv
    exact Nat.le_refl 1
  have hitems := itemsNesting_le hfiles
  simp only [Project.toJson,nesting,membersNesting,maxNesting]
  omega

/-- Endpoints, projects and reports are read back from their texts. Endpoints and reports hold values of
any depth, which must not open more brackets than the reader allows. -/
theorem decode_serialized_records (pretty : Bool) :
    (∀ e : Endpoint, e.Storable → e.toJson.nesting ≤ maxNesting →
      decode Endpoint.decoder (serialized pretty e.toJson) = .ok e) ∧
    (∀ p : Project, p.Storable →
      decode Project.record.decoder (serialized pretty p.toJson) = .ok p) ∧
    (∀ r : Report, r.Storable → r.toJson.nesting ≤ maxNesting →
      decode Report.record.decoder (serialized pretty r.toJson) = .ok r) :=
  ⟨fun _ he hn => he.restores.decode hn pretty,
    fun p hp => hp.restores.decode p.nesting_le_maxNesting pretty,
    fun _ hr hn => hr.restores.decode hn pretty⟩

/-- An endpoint with parameters, a nested body and texts that need escapes. -/
def storedEndpoint : Endpoint where
  controller := "C"
  handler := "m"
  position := "a:b-c.java:L0-L1"
  request := {
    method := "GET"
    path := "/p\n"
    query := [("","int"),("q","String")]
    body := [("deep",.array [.object [("n",.number (.negative (maxWord / 2 + 1)))],.null]),
      ("type",.text "T<\"é\">")] }
  references := ["a\\b"]

def storedProject : Project :=
  ⟨"Java","/w",[⟨"/w/A.java",maxWord,".java"⟩]⟩

def storedReport : Report :=
  ⟨maxWord,"1 APIs found (GET=1).",["line\tbreak"],[⟨0,storedEndpoint,"\x7b\x7d",.incomplete⟩]⟩

theorem storedEndpoint_storable : storedEndpoint.Storable := by
  have hdeep : WellFormed Number.Integral 2
      (.array [.object [("n",.number (.negative (maxWord / 2 + 1)))],.null]) := by
    refine .array (List.forall_mem_cons.mpr ⟨.object (by decide) ?_,?_⟩)
    · exact List.forall_mem_singleton.mpr (.number ⟨by decide,Nat.le_refl _⟩)
    · exact List.forall_mem_singleton.mpr .null
  refine ⟨by decide,3,.object (by decide) (List.forall_mem_cons.mpr ⟨hdeep,?_⟩)⟩
  exact List.forall_mem_singleton.mpr (.text _)

theorem decode_serialized_stored :
    storedEndpoint.Storable ∧ storedEndpoint.toJson.nesting ≤ maxNesting ∧
    storedProject.Storable ∧ storedReport.Storable ∧ storedReport.toJson.nesting ≤ maxNesting ∧
    ∀ pretty,
      decode Endpoint.decoder (serialized pretty storedEndpoint.toJson) = .ok storedEndpoint ∧
      decode Project.record.decoder (serialized pretty storedProject.toJson) = .ok storedProject ∧
      decode Report.record.decoder (serialized pretty storedReport.toJson) = .ok storedReport := by
  have he := storedEndpoint_storable
  have hp : storedProject.Storable := List.forall_mem_singleton.mpr (Nat.le_refl _)
  have hr : storedReport.Storable :=
    ⟨Nat.le_refl _,List.forall_mem_singleton.mpr ⟨Nat.zero_le _,he⟩⟩
  refine ⟨he,by decide,hp,hr,by decide,fun pretty => ?_⟩
  obtain ⟨hendpoints,hprojects,hreports⟩ := decode_serialized_records pretty
  exact ⟨hendpoints _ he (by decide),hprojects _ hp,hreports _ hr (by decide)⟩

end EndpointAudit
