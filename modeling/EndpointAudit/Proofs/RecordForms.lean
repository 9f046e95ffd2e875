import EndpointAudit.Proofs.SpanTexts
import EndpointAudit.Proofs.StoredRecords
import EndpointAudit.RecordFile

namespace EndpointAudit

open Json

namespace Json

/-- What is read to its end stops where it is closed. -/
theorem Stop.eq_closed {stop : Stop} {u : Unit} (h : stop.close = .ok u) : stop = .closed := by
  cases stop with
  | closed => rfl
  | broken read skipped => cases h
  | strayKey key => cases key <;> cases h

mutual

/-- What can be read can be skipped. -/
theorem skipFault_of_value {depth : Nat} {s : Surface} {v : Json}
    (h : Decoder.value depth s = .ok v) : s.skipFault = none := by
  match s with
  | .null | .bool _ | .number _ | .text _ => rfl
  | .broken _ _ | .cut _ _ => simp [Decoder.value] at h
  | .array items stop =>
    obtain _ | depth := depth
    · simp [Decoder.value] at h
    rw [Decoder.value] at h
    obtain ⟨vs,hitems,h⟩ := bind_eq_ok_iff.mp h
    obtain ⟨_,hstop,-⟩ := bind_eq_ok_iff.mp h
    rw [Surface.skipFault,skipItems_of_values hitems,Stop.eq_closed hstop]
    rfl
  | .object members stop =>
    obtain _ | depth := depth
    · simp [Decoder.value] at h
    rw [Decoder.value] at h
    obtain ⟨vs,hmembers,h⟩ := bind_eq_ok_iff.mp h
    obtain ⟨_,hstop,-⟩ := bind_eq_ok_iff.mp h
    rw [Surface.skipFault,skipMembers_of_memberValues hmembers,Stop.eq_closed hstop]
    rfl

theorem skipItems_of_values {depth : Nat} {items : List Surface} {vs : List Json}
    (h : Decoder.values depth items = .ok vs) : skipItems items = none := by
  match items with
  | [] => rfl
  | item :: items =>
    rw [Decoder.values] at h
    obtain ⟨v,hitem,h⟩ := bind_eq_ok_iff.mp h
    obtain ⟨vs,hitems,-⟩ := bind_eq_ok_iff.mp h
    rw [skipItems,skipFault_of_value hitem,skipItems_of_values hitems]
    rfl

theorem skipMembers_of_memberValues {depth : Nat} {members : List (Except Fault String × Surface)}
    {done vs : List (String × Json)}
    (h : Decoder.memberValues depth members done = .ok vs) : skipMembers members = none := by
  match members with
  | [] => rfl
  | (key,item) :: members =>
    rw [Decoder.memberValues] at h
    obtain ⟨k,-,h⟩ := bind_eq_ok_iff.mp h
    obtain ⟨v,hitem,h⟩ := bind_eq_ok_iff.mp h
    rw [skipMembers,skipFault_of_value hitem,skipMembers_of_memberValues h]
    rfl

end

theorem Record.fromMembers_closed {α : Type} {r : Record α} {depth : Nat} {slots : r.Slots} {a : α}
    {ms : List (Except Fault String × Surface)} (h : r.members false depth r.empty ms = .ok slots)
    (hc : r.close slots = some a) : r.fromMembers false depth ms .closed = .ok a := by
  rw [fromMembers,h]
  change (r.close slots).elim _ _ = _
  rw [hc]
  rfl

/-- A value that a reader takes in which so many brackets may be opened. -/
def Readable (depth : Nat) (s : Surface) : Prop :=
  ∃ v, Decoder.value depth s = .ok v

theorem readable_array {depth : Nat} {items : List Surface} (h : ∀ s ∈ items, Readable depth s) :
    Readable (depth + 1) (.array items .closed) := by
  obtain ⟨vs,hvs⟩ : ∃ vs, Decoder.values depth items = .ok vs := by
    induction items with
    | nil => exact ⟨[],rfl⟩
    | cons item items ih =>
      obtain ⟨⟨v,hv⟩,hrest⟩ := List.forall_mem_cons.mp h
      obtain ⟨vs,hvs⟩ := ih hrest
      exact ⟨v :: vs,by rw [Decoder.values,hv,hvs]; rfl⟩
  exact ⟨.array vs,by simp only [Decoder.value,hvs]; rfl⟩

/-- The members of an object whose keys can be read. -/
def keyed (ms : List (String × Surface)) : List (Except Fault String × Surface) :=
  ms.map fun m => (.ok m.1,m.2)

theorem readable_object {depth : Nat} {ms : List (String × Surface)}
    (h : ∀ m ∈ ms, Readable depth m.2) : Readable (depth + 1) (.object (keyed ms) .closed) := by
  have hall (done : List (String × Json)) :
      ∃ vs, Decoder.memberValues depth (keyed ms) done = .ok vs := by
    induction ms generalizing done with
    | nil => exact ⟨done,rfl⟩
    | cons m ms ih =>
      obtain ⟨⟨v,hv⟩,hrest⟩ := List.forall_mem_cons.mp h
      obtain ⟨vs,hvs⟩ := ih hrest (insertMember m.1 v done)
      refine ⟨vs,?_⟩
      simp only [keyed,List.map_cons,Decoder.memberValues,hv]
      exact hvs
  obtain ⟨vs,hvs⟩ := hall []
  exact ⟨.object vs,by simp only [Decoder.value,hvs]; rfl⟩

theorem surfaces_eq_map (items : List Json) : surfaces items = items.map surface := by
  induction items with
  | nil => rfl
  | cons v items ih => rw [surfaces,List.map_cons,ih]

theorem memberSurfaces_eq_keyed (members : List (String × Json)) :
    memberSurfaces members = keyed (members.map fun m => (m.1,surface m.2)) := by
  induction members with
  | nil => rfl
  | cons m members ih =>
    rw [memberSurfaces,ih]
    rfl

/-- A value with such numbers can be read from its text, whatever the order of its keys. -/
theorem readable_surface {v : Json} (h : Numbered Number.Legible v) {depth : Nat}
    (hn : v.nesting ≤ depth) : Readable depth (surface v) := by
  induction h generalizing depth with
  | null => exact ⟨.null,by simp [surface,Decoder.value]⟩
  | bool b => exact ⟨.bool b,by simp [surface,Decoder.value]⟩
  | @number n legible =>
    obtain ⟨n',hread⟩ := legible
    exact ⟨.number n',by simp [surface,Decoder.value,hread,Except.map]⟩
  | text s => exact ⟨.text s,by simp [surface,Decoder.value,Except.map]⟩
  | array _ ih =>
    obtain ⟨depth,rfl⟩ : ∃ k, depth = k + 1 := ⟨depth - 1,by rw [nesting] at hn; omega⟩
    rw [surface,surfaces_eq_map]
    refine readable_array (List.forall_mem_map.mpr fun v hv => ih v hv ?_)
    exact Nat.le_trans (nesting_le_items hv) (Nat.le_of_succ_le_succ hn)
  | object _ ih =>
    obtain ⟨depth,rfl⟩ : ∃ k, depth = k + 1 := ⟨depth - 1,by rw [nesting] at hn; omega⟩
    rw [surface,memberSurfaces_eq_keyed]
    refine readable_object (List.forall_mem_map.mpr fun m hm => ih m hm ?_)
    exact Nat.le_trans (nesting_le_members hm) (Nat.le_of_succ_le_succ hn)

end Json

/-- Which fields are left out of the text of an endpoint where they are empty. -/
structure Omission where
  method : Bool
  query : Bool
  body : Bool
  references : Bool

/-- A member, or nothing if it is left out. -/
def memberUnless (left : Bool) (key : String) (v : Json) : List (String × Json) :=
  if left then [] else [(key,v)]

/-- A request as a document has it, perhaps without empty parts. -/
def Request.written (r : Request) (o : Omission) : Json :=
  .object ([("method",.text r.method),("path",.text r.path)] ++
    memberUnless (o.query && r.query.isEmpty) "query_params"
      (.object (r.query.map fun (k,v) => (k,.text v))) ++
    memberUnless (o.body && r.body.isEmpty) "body" (.object r.body))

/-- An endpoint as a document has it, perhaps without empty parts. -/
def Endpoint.written (e : Endpoint) (o : Omission) : Json :=
  .object ([("controller_name",.text e.controller),("method_name",.text e.handler),
      ("code_pos",.text e.position)] ++
    memberUnless (o.method && e.declaredMethod.isEmpty) "http_method" (.text e.declaredMethod) ++
    [("req",e.request.written o)] ++
    memberUnless (o.references && e.references.isEmpty) "references" (.ofTexts e.references))

/-- A field that may be left out where it has the value that stands for its absence. -/
theorem Json.Record.Takes.unless {α β : Type} {r : Record (α → β)} {keys : List String}
    {members : List (String × Json)} {f : α → β} (h : r.Takes keys members f) {left : Bool}
    {key : String} {d : Decoder α} {v : Json} {a b : α} (hv : Restores d v a)
    (hleft : left = true → a = b) (hfree : key ∉ keys) :
    (r.defaulting key d b).Takes (keys ++ [key]) (members ++ memberUnless left key v) (f a) := by
  cases left with
  | false => exact h.defaulting hv hfree
  | true =>
    rw [hleft rfl,memberUnless,if_pos rfl,List.append_nil]
    exact h.omitted d b

theorem Request.Storable.restores_written {r : Request} (h : r.Storable) (o : Omission) :
    Restores Request.record.decoder (r.written o) r :=
  Record.takes_constant Request.mk
    |>.required (restores_text r.method) (by decide)
    |>.required (restores_text r.path) (by decide)
    |>.unless (restores_dictionary h.query fun e _ => restores_text e.2) (by simp) (by decide)
    |>.unless h.restores_body (by simp) (by decide)
    |>.restores

theorem Endpoint.Storable.restores_written {e : Endpoint} (h : e.Storable) (o : Omission) :
    Restores Endpoint.decoder (e.written o) e :=
  Record.takes_constant Endpoint.mk
    |>.required (restores_text e.controller) (by decide)
    |>.required (restores_text e.handler) (by decide)
    |>.required (restores_text e.position) (by decide)
    |>.unless (restores_text e.declaredMethod) (by simp) (by decide)
    |>.required (Request.Storable.restores_written h o) (by decide)
    |>.unless (restores_texts e.references) (by simp) (by decide)
    |>.restores

namespace RecordFile

/-- The list form, as it stands in a document. -/
def listForm (entries : List (Endpoint × Omission)) : Json :=
  .array (entries.map fun x => x.1.written x.2)

/-- The controller form: the members of an object that has the list under its key, perhaps a name, which
may be null, and whatever else can be read, in any order. -/
structure ControllerForm (depth : Nat) (list : Surface) (ms : List (String × Surface)) : Prop where
  once : (ms.map Prod.fst).count "apis" = 1
  apis : ∀ u, ("apis",u) ∈ ms → u = list
  name : (ms.map Prod.fst).count "controller_name" ≤ 1
  named : ∀ u, ("controller_name",u) ∈ ms → u = .null ∨ ∃ s, u = .text (.ok s)
  others : ∀ m ∈ ms, m.1 ≠ "apis" → m.1 ≠ "controller_name" → Readable depth m.2

theorem restores_listForm {entries : List (Endpoint × Omission)} (h : ∀ x ∈ entries, x.1.Storable) :
    Restores (Decoder.list Endpoint.decoder) (listForm entries) (entries.map Prod.fst) :=
  restores_items fun x hx => (h x hx).restores_written x.2

section members

variable {depth : Nat} {rest : List (Except Fault String × Surface)} {u : Surface}

theorem members_name (h : u = .null ∨ ∃ s, u = .text (.ok s)) (x : Option (List Endpoint)) :
    ∃ n, controller.members false depth (((),none),x) ((.ok "controller_name",u) :: rest) =
      controller.members false depth (((),some n),x) rest := by
  rcases h with rfl | ⟨s,rfl⟩
  · exact ⟨none,rfl⟩
  · exact ⟨some s,rfl⟩

theorem members_apis {es : List Endpoint} (h : Decoder.list Endpoint.decoder depth u = .ok es)
    (n : Option (Option String)) :
    controller.members false depth (((),n),none) ((.ok "apis",u) :: rest) =
      controller.members false depth (((),n),some es) rest := by
  have hput : controller.put (((),n),none) "apis" = some fun depth s =>
      ((Decoder.list Endpoint.decoder depth s).map some).map fun x => (((),n),x) := rfl
  simp only [Record.members,bind,Except.bind,hput,h,Except.map]
  rfl

theorem members_other {key : String} (ha : key ≠ "apis") (hn : key ≠ "controller_name")
    (h : Readable depth u) (slots : controller.Slots) :
    controller.members false depth slots ((.ok key,u) :: rest) =
      controller.members false depth slots rest := by
  have hput : controller.put slots key = none := by
    simp [controller,Record.required,Record.omittable,Record.defaulting,Record.both,Field.record,
      Record.constant,ha,hn]
  obtain ⟨v,hv⟩ := h
  simp only [Record.members,bind,Except.bind,hput,skip,skipFault_of_value hv]
  rfl

/-- Each member goes to its own place: the list where none was found before, a name where there is none
yet, and all others are passed over. -/
theorem members_keyed {ms : List (String × Surface)} {es : List Endpoint}
    {n : Option (Option String)} {x : Option (List Endpoint)}
    (hapis : ∀ u, ("apis",u) ∈ ms → Decoder.list Endpoint.decoder depth u = .ok es)
    (hnamed : ∀ u, ("controller_name",u) ∈ ms → u = .null ∨ ∃ s, u = .text (.ok s))
    (hothers : ∀ m ∈ ms, m.1 ≠ "apis" → m.1 ≠ "controller_name" → Readable depth m.2)
    (hname : (ms.map Prod.fst).count "controller_name" + n.toList.length ≤ 1)
    (honce : x = none ∧ (ms.map Prod.fst).count "apis" = 1 ∨
      x = some es ∧ (ms.map Prod.fst).count "apis" = 0) :
    ∃ n', controller.members false depth (((),n),x) (keyed ms) = .ok (((),n'),some es) := by
  induction ms generalizing n x with
  | nil =>
    rcases honce with ⟨_,hcount⟩ | ⟨rfl,_⟩
    · simp at hcount
    · exact ⟨n,rfl⟩
  | cons m ms ih =>
    obtain ⟨key,u⟩ := m
    simp only [List.map_cons,List.count_cons,beq_iff_eq] at hname honce
    replace ih := fun n x => @ih n x (fun u hu => hapis u (List.mem_cons_of_mem _ hu))
      (fun u hu => hnamed u (List.mem_cons_of_mem _ hu))
      (fun m hm => hothers m (List.mem_cons_of_mem _ hm))
    by_cases ha : key = "apis"
    · subst ha
      have hx : x = none ∧ (ms.map Prod.fst).count "apis" = 0 := by simpa using honce
      obtain ⟨rfl,hnone⟩ := hx
      obtain ⟨n',hn'⟩ := ih n (some es) (by simpa using hname) (.inr ⟨rfl,hnone⟩)
      exact ⟨n',(members_apis (hapis u List.mem_cons_self) n).trans hn'⟩
    rw [if_neg ha] at honce
    by_cases hn : key = "controller_name"
    · subst hn
      obtain ⟨rfl,hnone⟩ : n = none ∧ (ms.map Prod.fst).count "controller_name" = 0 := by
        cases n with
        | none => simpa using hname
        | some n => simp at hname
      obtain ⟨n,hstep⟩ := members_name (hnamed u List.mem_cons_self) x
      obtain ⟨n',hn'⟩ := ih (some n) x (by simp [hnone]) honce
      exact ⟨n',hstep.trans hn'⟩
    rw [if_neg hn] at hname
    obtain ⟨n',hn'⟩ := ih n x hname honce
    exact ⟨n',(members_other ha hn (hothers _ List.mem_cons_self ha hn) _).trans hn'⟩

end members

/-- No document has both forms: an object is no list, and what stands first in a list is a name in the one
form and an endpoint in the other. -/
theorem controller_ne_list {depth : Nat} {s : Surface} {es es' : List Endpoint}
    (h : controller.decoder depth s = .ok es) : Decoder.list Endpoint.decoder depth s ≠ .ok es' := by
  intro hlist
  cases s with
  | object ms stop => cases hlist
  | array items stop =>
    obtain _ | depth := depth
    · cases h
    cases items with
    | nil => cases stop <;> cases h
    | cons item items =>
      cases item with
      | array inner stop' => cases h
      | object inner stop' => cases h
      | null | bool b | broken read skipped | cut read skipped => cases hlist
      | number value => cases value <;> cases hlist
      | text value => cases value <;> cases hlist
  | null | bool b | broken read skipped | cut read skipped => cases h
  | number value => cases value <;> cases h
  | text value => cases value <;> cases h

/-- The decoder that tries the two forms the other way round. -/
def listFirst : Json.Decoder (List Endpoint)
  | depth,s => do
    let _ ← Json.Decoder.value depth s
    match Json.Decoder.list Endpoint.decoder depth s with
    | .ok endpoints => .ok endpoints
    | .error _ => (controller.decoder depth s).mapError fun _ => .mismatched

theorem listFirst_eq : listFirst = decoder := by
  funext depth s
  simp only [listFirst,decoder]
  congr 1
  funext _
  cases hc : controller.decoder depth s with
  | ok es =>
    cases hl : Decoder.list Endpoint.decoder depth s with
    | ok es' => exact absurd hl (controller_ne_list hc)
    | error f => rfl
  | error f =>
    cases Decoder.list Endpoint.decoder depth s with
    | ok es => rfl
    | error f' => rfl

variable {entries : List (Endpoint × Omission)} {depth : Nat}

theorem decoder_listForm (h : ∀ x ∈ entries, x.1.Storable) (hn : (listForm entries).nesting ≤ depth) :
    decoder depth (surface (listForm entries)) = .ok (entries.map Prod.fst) := by
  have hlist := restores_listForm h
  obtain ⟨v,hv⟩ := readable_surface hlist.legible hn
  have hread := hlist.decodes depth hn
  rw [← listFirst_eq,listFirst,hv,hread]
  rfl

theorem decoder_controllerForm (h : ∀ x ∈ entries, x.1.Storable) {ms : List (String × Surface)}
    (hms : ControllerForm depth (surface (listForm entries)) ms) (hn : (listForm entries).nesting ≤ depth) :
    decoder (depth + 1) (.object (keyed ms) .closed) = .ok (entries.map Prod.fst) := by
  have hlist := restores_listForm h
  have hread := hlist.decodes depth hn
  have hall : ∀ m ∈ ms, Readable depth m.2 := by
    intro ⟨key,u⟩ hm
    by_cases ha : key = "apis"
    · rw [hms.apis u (ha ▸ hm)]
      exact readable_surface hlist.legible hn
    by_cases hk : key = "controller_name"
    · rcases hms.named u (hk ▸ hm) with rfl | ⟨s,rfl⟩
      · exact ⟨.null,by simp [Decoder.value]⟩
      · exact ⟨.text s,by simp [Decoder.value,Except.map]⟩
    · exact hms.others _ hm ha hk
  obtain ⟨v,hv⟩ := readable_object hall
  obtain ⟨n,hmembers⟩ := members_keyed (n := none) (x := none)
    (fun u hu => (hms.apis u hu).symm ▸ hread) hms.named hms.others (by simpa using hms.name)
    (.inl ⟨rfl,hms.once⟩)
  have hcontroller : controller.decoder (depth + 1) (.object (keyed ms) .closed) =
      .ok (entries.map Prod.fst) := by
    have hclose : controller.close (((),n),some (entries.map Prod.fst)) =
        some (entries.map Prod.fst) := by
      cases n <;> rfl
    exact Record.fromMembers_closed hmembers hclose
  rw [decoder,hv,hcontroller]
  rfl

variable {text : String} {s : Surface} {es : List Endpoint}

theorem parse_document (htext : Document.ofText text = ⟨s,false⟩) (h : decoder maxNesting s = .ok es) :
    parse text = .ok es := by
  simp only [parse,decode,htext,h,bind,Except.bind]
  rfl

theorem load_parse {t : FileTree} {path : String} (hread : t.readText path = .ok text)
    (h : parse text = .ok es) : load t path = .ok es := by
  rw [load]
  exact bind_eq_ok_iff.mpr ⟨text,mapError_eq_ok_iff.mpr hread,mapError_eq_ok_iff.mpr h⟩

/-- Endpoints are read as they were written, from a list and from a document that names their controller,
with any fields around the list. No document can be read in both forms, so it does not matter which of the
two is tried first. -/
theorem load_either_form :
    (∀ entries : List (Endpoint × Omission), (∀ x ∈ entries, x.1.Storable) →
      (∀ (t : FileTree) (path text : String), t.readText path = .ok text →
        Document.ofText text = ⟨surface (listForm entries),false⟩ →
        (listForm entries).nesting ≤ maxNesting → load t path = .ok (entries.map Prod.fst)) ∧
      (∀ (t : FileTree) (path text : String) (ms : List (String × Surface)),
        t.readText path = .ok text → Document.ofText text = ⟨.object (keyed ms) .closed,false⟩ →
        ControllerForm (maxNesting - 1) (surface (listForm entries)) ms →
        (listForm entries).nesting < maxNesting → load t path = .ok (entries.map Prod.fst)) ∧
      ∀ pretty, ((listForm entries).nesting ≤ maxNesting →
        parse (serialized pretty (listForm entries)) = .ok (entries.map Prod.fst)) ∧
        ∀ members : List (String × Json), (∀ m ∈ members, Numbered Number.Legible m.2) →
          ControllerForm (maxNesting - 1) (surface (listForm entries))
            (members.map fun m => (m.1,surface m.2)) →
          (listForm entries).nesting < maxNesting →
          parse (serialized pretty (.object members)) = .ok (entries.map Prod.fst)) ∧
    (∀ depth s es es', controller.decoder depth s = .ok es →
      Decoder.list Endpoint.decoder depth s ≠ .ok es') ∧
    ∀ text, decode listFirst text = parse text := by
  refine ⟨fun entries h => ⟨?_,?_,fun pretty => ⟨?_,?_⟩⟩,fun _ _ _ _ => controller_ne_list,?_⟩
  · intro t path text hread htext hn
    exact load_parse hread (parse_document htext (decoder_listForm h hn))
  · intro t path text ms hread htext hms hn
    exact load_parse hread (parse_document htext (decoder_controllerForm h hms (Nat.le_sub_one_of_lt hn)))
  · intro hn
    exact parse_document (document_serialized (restores_listForm h).legible pretty) (decoder_listForm h hn)
  · intro members hlegible hms hn
    have htext := document_serialized (.object hlegible) pretty
    rw [surface,memberSurfaces_eq_keyed] at htext
    exact parse_document htext (decoder_controllerForm h hms (Nat.le_sub_one_of_lt hn))
  · intro text
    rw [listFirst_eq,parse]

/-- Blanks and escapes do not count, and a name may stand behind the list. -/
example : (parse "\x7b \"x\":[1 ],\n\"\\u0061pis\" : [ ],\"controller_name\":null\x7d ").toOption.map
    List.length = some 0 := by
  decide +kernel

/-- An endpoint of which nothing is left out, and one of which all that is empty is left out. -/
def storedEntries : List (Endpoint × Omission) :=
  [(storedEndpoint,⟨false,false,false,false⟩),
    ({ controller := "A",handler := "a",position := "p",request := { method := "GET",path := "/" } },
      ⟨true,true,true,true⟩)]

/-- A controller's document with a name that is null, and fields that no one asked for. -/
def storedMembers : List (String × Json) :=
  [("file_path",.text "A.java"),("apis",listForm storedEntries),("controller_name",.null),
    ("file_path",.array [.null])]

/-- Both documents in files. -/
def storedForms : FileTree where
  entries := [(["list.json"],.file (serialized true (listForm storedEntries)).toUTF8 false),
    (["named.json"],.file (serialized false (.object storedMembers)).toUTF8 false)]
  cwd := []

theorem storedEntries_storable : ∀ x ∈ storedEntries, x.1.Storable := by
  refine List.forall_mem_cons.mpr ⟨storedEndpoint_storable,List.forall_mem_singleton.mpr ?_⟩
  exact ⟨.nil,1,.object .nil (List.forall_mem_nil _)⟩

theorem storedMembers_form : ControllerForm (maxNesting - 1) (surface (listForm storedEntries))
    (storedMembers.map fun m => (m.1,surface m.2)) := by
  refine ⟨by decide,by simp [storedMembers],by decide,by simp [storedMembers,surface],?_⟩
  have hother (v : Json) (hv : Numbered Number.Legible v) (hn : v.nesting ≤ maxNesting - 1) :
      Readable (maxNesting - 1) (surface v) := readable_surface hv hn
  simp only [storedMembers,List.map_cons,List.map_nil,List.forall_mem_cons]
  refine ⟨?_,fun h => absurd rfl h,fun _ h => absurd rfl h,?_,List.forall_mem_nil _⟩
  · exact fun _ _ => hother _ (.text _) (by decide)
  · exact fun _ _ => hother _ (.array (List.forall_mem_singleton.mpr .null)) (by decide)

theorem readText_stored {t : FileTree} {path text : String} (h : t.read path = .ok text.toUTF8) :
    t.readText path = .ok text := by
  have htext : String.fromUTF8? text.toUTF8 = some text := dif_pos (String.isValidUTF8 _)
  simp only [FileTree.readText,h,htext,bind,Except.bind]

theorem load_either_form_stored :
    (∀ x ∈ storedEntries, x.1.Storable) ∧ (listForm storedEntries).nesting < maxNesting ∧
    ControllerForm (maxNesting - 1) (surface (listForm storedEntries))
      (storedMembers.map fun m => (m.1,surface m.2)) ∧
    load storedForms "/list.json" = .ok (storedEntries.map Prod.fst) ∧
    load storedForms "/named.json" = .ok (storedEntries.map Prod.fst) ∧
    parse (serialized true (listForm storedEntries)) = .ok (storedEntries.map Prod.fst) ∧
    parse (serialized true (.object storedMembers)) = .ok (storedEntries.map Prod.fst) := by
  have hs := storedEntries_storable
  have hm := storedMembers_form
  have hn : (listForm storedEntries).nesting < maxNesting := by decide
  have hlegible : ∀ m ∈ storedMembers, Numbered Number.Legible m.2 := by
    simp only [storedMembers,List.forall_mem_cons]
    exact ⟨.text _,(restores_listForm hs).legible,.null,
      .array (List.forall_mem_singleton.mpr .null),List.forall_mem_nil _⟩
  have hlist : storedForms.readText "/list.json" = .ok (serialized true (listForm storedEntries)) :=
    readText_stored rfl
  have hnamed : storedForms.readText "/named.json" = .ok (serialized false (.object storedMembers)) :=
    readText_stored rfl
  obtain ⟨hflat,hcontroller,htexts⟩ := load_either_form.1 storedEntries hs
  have hdocument := document_serialized (.object hlegible) false
  rw [surface,memberSurfaces_eq_keyed] at hdocument
  exact ⟨hs,hn,hm,
    hflat _ _ _ hlist (document_serialized (restores_listForm hs).legible true) (Nat.le_of_lt hn),
    hcontroller _ _ _ _ hnamed hdocument hm hn,(htexts true).1 (Nat.le_of_lt hn),
    (htexts true).2 _ hlegible hm hn⟩

end RecordFile

end EndpointAudit
