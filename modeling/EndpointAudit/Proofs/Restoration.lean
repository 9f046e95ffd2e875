import EndpointAudit.Json.Record
import EndpointAudit.Proofs.Readback

namespace EndpointAudit.Json

mutual

/-- How many brackets are open at once in the text of a value. -/
def nesting : Json → Nat
  | .array items => itemsNesting items + 1
  | .object members => membersNesting members + 1
  | _ => 0

def itemsNesting : List Json → Nat
  | [] => 0
  | v :: vs => max (nesting v) (itemsNesting vs)

def membersNesting : List (String × Json) → Nat
  | [] => 0
  | (_,v) :: members => max (nesting v) (membersNesting members)

end

theorem nesting_le_items {items : List Json} {v : Json} (h : v ∈ items) :
    v.nesting ≤ itemsNesting items := by
  induction items with
  | nil => cases h
  | cons w items ih =>
    rw [itemsNesting]
    rcases List.mem_cons.mp h with rfl | h
    · exact Nat.le_max_left _ _
    · exact Nat.le_trans (ih h) (Nat.le_max_right _ _)

theorem itemsNesting_le {items : List Json} {depth : Nat} (h : ∀ v ∈ items, v.nesting ≤ depth) :
    itemsNesting items ≤ depth := by
  induction items with
  | nil => exact Nat.zero_le depth
  | cons w items ih =>
    rw [itemsNesting,Nat.max_le]
    exact ⟨h w List.mem_cons_self,ih fun v hv => h v (List.mem_cons_of_mem _ hv)⟩

theorem nesting_le_members {members : List (String × Json)} {m : String × Json} (h : m ∈ members) :
    m.2.nesting ≤ membersNesting members := by
  induction members with
  | nil => cases h
  | cons m' members ih =>
    rw [membersNesting]
    rcases List.mem_cons.mp h with rfl | h
    · exact Nat.le_max_left _ _
    · exact Nat.le_trans (ih h) (Nat.le_max_right _ _)

theorem membersNesting_append (members members' : List (String × Json)) :
    membersNesting (members ++ members') = max (membersNesting members) (membersNesting members') := by
  induction members with
  | nil => simp [membersNesting]
  | cons m members ih => simp only [List.cons_append,membersNesting,ih,Nat.max_assoc]

/-- How deep a document may be does not matter, as long as the value is not deeper. -/
theorem WellFormed.of_nesting {number : Number → Prop} {depth depth' : Nat} {v : Json}
    (h : WellFormed number depth v) (hn : v.nesting ≤ depth') : WellFormed number depth' v := by
  induction h generalizing depth' with
  | null => exact .null
  | bool b => exact .bool b
  | number wanted => exact .number wanted
  | text s => exact .text s
  | array _ ih =>
    obtain ⟨depth',rfl⟩ : ∃ k, depth' = k + 1 := ⟨depth' - 1,by rw [nesting] at hn; omega⟩
    refine .array fun v hv => ih v hv (Nat.le_trans (nesting_le_items hv) ?_)
    exact Nat.le_of_succ_le_succ hn
  | object sorted _ ih =>
    obtain ⟨depth',rfl⟩ : ∃ k, depth' = k + 1 := ⟨depth' - 1,by rw [nesting] at hn; omega⟩
    refine .object sorted fun m hm => ih m hm (Nat.le_trans (nesting_le_members hm) ?_)
    exact Nat.le_of_succ_le_succ hn

/-- A decoder that finds something in the text of a value, as long as enough brackets may be opened. -/
structure Restores {α : Type} (d : Decoder α) (v : Json) (a : α) : Prop where
  legible : Numbered Number.Legible v
  decodes : ∀ depth, v.nesting ≤ depth → d depth (surface v) = .ok a

section decoders

variable {α : Type} {d : Decoder α} {v : Json} {a : α}

theorem Restores.decode (h : Restores d v a) (hn : v.nesting ≤ maxNesting) (pretty : Bool) :
    Json.decode d (serialized pretty v) = .ok a := by
  rw [Json.decode,document_serialized h.legible,h.decodes maxNesting hn]
  rfl

theorem restores_text (s : String) : Restores Decoder.text (.text s) s :=
  ⟨.text s,fun _ _ => rfl⟩

theorem restores_word {n : Nat} (h : n ≤ maxWord) : Restores Decoder.word64 (.ofNat n) n := by
  have hexact := exact_nat h
  refine ⟨.number hexact.legible,fun _ _ => ?_⟩
  change Decoder.natUpTo maxWord _ (.number (Number.nat n).reading) = .ok n
  rw [hexact]
  exact if_pos h

theorem restores_value {depth : Nat} (h : WellFormed Number.Exact depth v) :
    Restores Decoder.value v v := by
  refine ⟨h.legible.numbered,fun depth' hn => ?_⟩
  rw [value_surface (h.of_nesting hn).legible,reread_eq_self h]

variable {write : α → Json}

/-- A list whose items are written and read one by one. -/
theorem restores_items {β : Type} {write : β → Json} {read : β → α} {bs : List β}
    (h : ∀ b ∈ bs, Restores d (write b) (read b)) :
    Restores (Decoder.list d) (.array (bs.map write)) (bs.map read) := by
  refine ⟨.array ?_,fun depth hn => ?_⟩
  · intro v hv
    obtain ⟨b,hb,rfl⟩ := List.mem_map.mp hv
    exact (h b hb).legible
  · obtain ⟨depth,rfl⟩ : ∃ k, depth = k + 1 := ⟨depth - 1,by rw [nesting] at hn; omega⟩
    have hitems : Decoder.eachItem d depth (surfaces (bs.map write)) = .ok (bs.map read) := by
      refine eachItem_surfaces fun b hb => (h b hb).decodes depth ?_
      exact Nat.le_trans (nesting_le_items (List.mem_map_of_mem hb)) (Nat.le_of_succ_le_succ hn)
    simp only [surface,Decoder.list,Decoder.nested,hitems,Stop.close]
    rfl

theorem restores_list {as : List α} (h : ∀ a ∈ as, Restores d (write a) a) :
    Restores (Decoder.list d) (.array (as.map write)) as := by
  have hitems : Restores (Decoder.list d) (.array (as.map write)) (as.map id) := restores_items h
  rwa [List.map_id] at hitems

theorem restores_dictionary {entries : List (String × α)}
    (hs : entries.Pairwise fun e e' => e.1 < e'.1) (h : ∀ e ∈ entries, Restores d (write e.2) e.2) :
    Restores (Decoder.dictionary d) (.object (entries.map fun e => (e.1,write e.2))) entries := by
  refine ⟨.object ?_,fun depth hn => ?_⟩
  · intro m hm
    obtain ⟨e,he,rfl⟩ := List.mem_map.mp hm
    exact (h e he).legible
  · obtain ⟨depth,rfl⟩ : ∃ k, depth = k + 1 := ⟨depth - 1,by rw [nesting] at hn; omega⟩
    have hentries : Decoder.eachMember d depth
        (memberSurfaces (entries.map fun e => (e.1,write e.2))) [] = .ok entries := by
      have heach : ∀ e ∈ entries, d depth (surface (write e.2)) = .ok (id e.2) := by
        refine fun e he => (h e he).decodes depth ?_
        have hm : (e.1,write e.2) ∈ entries.map fun e => (e.1,write e.2) :=
          List.mem_map_of_mem he
        exact Nat.le_trans (nesting_le_members hm) (Nat.le_of_succ_le_succ hn)
      simpa using eachMember_surfaces heach hs [] (by simp)
    simp only [surface,Decoder.dictionary,Decoder.nested,hentries,Stop.close]
    rfl

end decoders

theorem memberSurfaces_append (members members' : List (String × Json)) :
    memberSurfaces (members ++ members') = memberSurfaces members ++ memberSurfaces members' := by
  induction members with
  | nil => rfl
  | cons m members ih => rw [List.cons_append,memberSurfaces,ih]; rfl

namespace Record

variable {α β : Type} {r : Record α} {q : Record β} {keys : List String}
  {members : List (String × Json)}

/-- The keys of the fields of a record. -/
def HasKeys (r : Record α) (keys : List String) : Prop :=
  ∀ slots key, (r.put slots key).isSome = keys.contains key

/-- Members that are put into fields of a record, which they fill. -/
structure Takes (r : Record α) (keys : List String) (members : List (String × Json)) (a : α) :
    Prop where
  has : r.HasKeys keys
  known : ∀ m ∈ members, m.1 ∈ keys
  legible : ∀ m ∈ members, Numbered Number.Legible m.2
  fills : ∀ depth, membersNesting members ≤ depth → ∃ slots,
    r.members false depth r.empty (memberSurfaces members) = .ok slots ∧ r.close slots = some a

theorem hasKeys_field (field : Field α) : field.record.HasKeys field.keys := by
  intro slots key
  simp only [Field.record]
  split
  · rename_i hkey
    exact hkey.symm
  · rename_i hkey
    exact (Bool.eq_false_iff.mpr hkey).symm

theorem HasKeys.both {r : Record (α → β)} {q : Record α} {keys keys' : List String}
    (h : r.HasKeys keys) (h' : q.HasKeys keys') : (r.both q).HasKeys (keys ++ keys') := by
  intro slots key
  have hr := h slots.1 key
  have hq := h' slots.2 key
  simp only [Record.both,List.contains_append]
  split
  · rename_i heq
    rw [heq] at hr
    rw [← hr]
    rfl
  · rename_i heq
    rw [heq] at hr
    rw [Option.isSome_map,hq,← hr]
    rfl

theorem members_append (strict : Bool) (depth : Nat) (slots : r.Slots)
    (ms ms' : List (Except Fault String × Surface)) :
    r.members strict depth slots (ms ++ ms') =
      r.members strict depth slots ms >>= fun slots => r.members strict depth slots ms' := by
  induction ms generalizing slots with
  | nil => rfl
  | cons m ms ih =>
    obtain ⟨key,item⟩ := m
    rw [List.cons_append,members,members,bind_assoc]
    congr 1
    funext k
    split
    · rw [bind_assoc]
      congr 1
      funext slots
      exact ih slots
    · split
      · rfl
      · rw [bind_assoc]
        congr 1
        funext _
        exact ih slots

/-- What fills the first of two records leaves the second as it is. -/
theorem members_both {r : Record (α → β)} {q : Record α} (hkeys : r.HasKeys keys) {depth : Nat}
    {slots slots' : r.Slots} (hknown : ∀ m ∈ members, m.1 ∈ keys)
    (h : r.members false depth slots (memberSurfaces members) = .ok slots') (others : q.Slots) :
    (r.both q).members false depth (slots,others) (memberSurfaces members) = .ok (slots',others) := by
  induction members generalizing slots with
  | nil => cases h; rfl
  | cons m members ih =>
    obtain ⟨key,v⟩ := m
    have hput : (r.put slots key).isSome = true := by
      rw [hkeys,List.contains_iff_mem]
      exact hknown (key,v) List.mem_cons_self
    obtain ⟨step,hstep⟩ := Option.isSome_iff_exists.mp hput
    have hboth : (r.both q).put (slots,others) key =
        some fun depth s => (step depth s).map fun a => (a,others) := by
      simp only [both,hstep]
    simp only [memberSurfaces,Record.members,bind,Except.bind,hstep,hboth] at h ⊢
    cases hs : step depth (surface v) with
    | error f => rw [hs] at h; cases h
    | ok slots =>
      rw [hs] at h
      exact ih (fun m hm => hknown m (List.mem_cons_of_mem _ hm)) h

theorem takes_constant (a : α) : (constant a).Takes [] [] a where
  has _ _ := rfl
  known _ hm := nomatch hm
  legible _ hm := nomatch hm
  fills _ _ := ⟨(),rfl,rfl⟩

section field

variable {r : Record (α → β)} {a : α} {f : α → β} {v : Json}

/-- One more field takes the member that its decoder restores. -/
theorem Takes.field (h : r.Takes keys members f) (field : Field α) {key : String}
    (hkey : key ∈ field.keys) (hfree : key ∉ keys) (hv : Restores field.decoder v a) :
    (r.both field.record).Takes (keys ++ field.keys) (members ++ [(key,v)]) (f a) where
  has := h.has.both (hasKeys_field field)
  known m hm := by
    rcases List.mem_append.mp hm with hm | hm
    · exact List.mem_append_left _ (h.known m hm)
    · rw [List.mem_singleton.mp hm]
      exact List.mem_append_right _ hkey
  legible m hm := by
    rcases List.mem_append.mp hm with hm | hm
    · exact h.legible m hm
    · rw [List.mem_singleton.mp hm]
      exact hv.legible
  fills depth hdepth := by
    rw [membersNesting_append,Nat.max_le] at hdepth
    obtain ⟨slots,hslots,hclose⟩ := h.fills depth hdepth.1
    refine ⟨(slots,some a),?_,?_⟩
    · have hnone : r.put slots key = none := by
        rw [← Option.not_isSome_iff_eq_none,h.has,List.contains_iff_mem]
        exact hfree
      have hread := hv.decodes depth (Nat.le_trans (Nat.le_max_left _ _) hdepth.2)
      have hlast : (r.both field.record).members false depth (slots,none)
          (memberSurfaces [(key,v)]) = .ok (slots,some a) := by
        have hput : (r.both field.record).put (slots,none) key =
            some fun depth s => ((field.decoder depth s).map some).map fun b => (slots,b) := by
          simp only [both,hnone,Field.record,List.contains_iff_mem.mpr hkey]
          rfl
        simp only [memberSurfaces,Record.members,bind,Except.bind,hput,hread]
        rfl
      have hfirst : (r.both field.record).members false depth (r.empty,none)
          (memberSurfaces members) = .ok (slots,none) :=
        @members_both _ _ keys members r field.record h.has depth _ _ h.known hslots none
      rw [memberSurfaces_append,members_append]
      exact hfirst ▸ hlast
    · change (r.close slots >>= _) = _
      rw [hclose]
      rfl

theorem Takes.required (h : r.Takes keys members f) {key : String} {d : Decoder α}
    (hv : Restores d v a) (hfree : key ∉ keys) :
    (r.required key d).Takes (keys ++ [key]) (members ++ [(key,v)]) (f a) :=
  h.field ⟨[key],d,none,none⟩ List.mem_cons_self hfree hv

theorem Takes.requiredAs (h : r.Takes keys members f) {key other : String} {d : Decoder α}
    (hv : Restores d v a) (hfree : key ∉ keys) :
    (r.requiredAs key other d).Takes (keys ++ [key,other]) (members ++ [(key,v)]) (f a) :=
  h.field ⟨[key,other],d,none,none⟩ List.mem_cons_self hfree hv

theorem Takes.defaulting (h : r.Takes keys members f) {key : String} {d : Decoder α} {b : α}
    (hv : Restores d v a) (hfree : key ∉ keys) :
    (r.defaulting key d b).Takes (keys ++ [key]) (members ++ [(key,v)]) (f a) :=
  h.field ⟨[key],d,some b,some b⟩ List.mem_cons_self hfree hv

/-- A field that has a value of its own takes that value where it is left out. -/
theorem Takes.omitted (h : r.Takes keys members f) {key : String} (d : Decoder α) (a : α) :
    (r.defaulting key d a).Takes (keys ++ [key]) members (f a) where
  has := h.has.both (hasKeys_field ⟨[key],d,some a,some a⟩)
  known m hm := List.mem_append_left _ (h.known m hm)
  legible := h.legible
  fills depth hdepth := by
    obtain ⟨slots,hslots,hclose⟩ := h.fills depth hdepth
    refine ⟨(slots,none),?_,?_⟩
    · exact @members_both _ _ keys members r (Field.record ⟨[key],d,some a,some a⟩) h.has depth _ _
        h.known hslots none
    · change (r.close slots >>= _) = _
      rw [hclose]
      rfl

end field

/-- A record restores what its fields were given. -/
theorem Takes.restores {a : α} (h : r.Takes keys members a) :
    Restores r.decoder (.object members) a := by
  refine ⟨.object h.legible,fun depth hn => ?_⟩
  obtain ⟨depth,rfl⟩ : ∃ k, depth = k + 1 := ⟨depth - 1,by rw [nesting] at hn; omega⟩
  obtain ⟨slots,hslots,hclose⟩ := h.fills depth (Nat.le_of_succ_le_succ hn)
  simp only [surface,decoder,decoderWith,Decoder.nested,fromMembers,hslots,Stop.close]
  change (r.close slots).elim _ _ = _
  rw [hclose]
  rfl

end Record

end EndpointAudit.Json
