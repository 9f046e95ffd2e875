import EndpointAudit.Proofs.Effects
import EndpointAudit.Proofs.Logbooks

namespace EndpointAudit

open EndpointAudit.Path FileTree Relation

/-- What the entry of a call tells about a finding. -/
def CallLog.Entry.told (e : CallLog.Entry) : Endpoint × String :=
  (e.endpoint,e.response)

def Finding.told (f : Finding) : Endpoint × String :=
  (f.endpoint,f.text)

namespace Session

variable {s : Session} {S : Location} {t t' : FileTree} {time : String} {noted : List CallLog.Entry}
  {w w' : World}

/-- While a session is in place, it stays so, and its log of calls is not touched. -/
def Spares (s : Session) (S : Location) (t t' : FileTree) : Prop :=
  s.InPlace S t → s.InPlace S t' ∧ ∀ {loc}, CallPlace S loc → t'.node? loc = t.node? loc

/-- A step of a run that notes no call. -/
structure Aside (s : Session) (S : Location) (w w' : World) : Prop where
  files : s.Spares S w.files w'.files
  count : w'.logged = w.logged
  clock : w'.clock = w.clock

theorem aside_still (hf : w'.files = w.files) (hl : w'.logged = w.logged) (hc : w'.clock = w.clock) :
    Aside s S w w' :=
  ⟨fun hp => ⟨hf ▸ hp,fun _ => by rw [hf]⟩,hl,hc⟩

/-- A session is in place in a world, and its log holds the calls that were counted. -/
structure Logged (s : Session) (S : Location) (time : String) (noted : List CallLog.Entry) (w : World) :
    Prop where
  place : s.InPlace S w.files
  book : s.Logbook S time noted w.files
  count : w.logged = noted.length
  clock : w.clock.time = time

theorem Logged.aside (h : s.Logged S time noted w) (ha : Aside s S w w') :
    s.Logged S time noted w' := by
  obtain ⟨hplace,hbook⟩ := ha.files h.place
  exact ⟨hplace,h.book.congr hbook,ha.count.trans h.count,by rw [ha.clock]; exact h.clock⟩

/-- A call that is noted is the last one of the log. -/
theorem Logged.log {services : Analysis.Services} (h : s.Logged S time noted w) (hd : Named s.dir)
    (hl : services.callDir = some s.callDir) (e : CallLog.Entry) :
    s.Logged S time (noted ++ [e]) (services.log e w) := by
  obtain ⟨hplace,hbook,hcount,rfl⟩ := h
  unfold Analysis.Services.log
  rw [hl]
  simp only [hcount]
  cases hw : CallLog.write w.files s.callDir w.clock.time (noted.length + 1) e with
  | error err =>
    refine ⟨hplace,hbook.add (.inr ⟨?_,hbook.free e.endpoint⟩) fun _ => rfl,by simp,rfl⟩
    intro hf
    obtain ⟨path,t',hok⟩ := hplace.write_entry hd hbook.above hbook.dir hf (hbook.free _) w.clock.time
    rw [hok] at hw
    cases hw
  | ok written =>
    obtain ⟨path,files⟩ := written
    have hlogs := hplace.log hd hw
    have hfits := hplace.fits_of_write hd hbook.dir hw
    refine ⟨hplace.logs hlogs,?_,by simp,rfl⟩
    clear hw
    cases hlogs with
    | entry writable x =>
      refine hbook.add (.inl ⟨hfits,x,?_⟩) fun hne => ?_
      · rw [node?_put _ writable.ne_nil,if_pos rfl]
      · rw [node?_put _ writable.ne_nil,if_neg hne]

end Session

open Session

namespace Analysis

variable {services : Services} {s : Session} {S : Location} {time : String}
  {old : List CallLog.Entry} {w w' : World}

namespace Task

/-- Every way on from here that ends with a finding notes the call of that finding right before. -/
def Notes : Task Finding → Prop
  | .done _ => False
  | .failed _ => True
  | .crashed _ => True
  | .readSpan _ next => ∀ code, (next code).Notes
  | .lookUp _ next => ∀ answer, (next answer).Notes
  | .generate _ _ next => ∀ text, (next text).Notes
  | .note entry next => ∃ f, next = .done f ∧ entry.told = f.told

theorem Quiet.bind_notes {α : Type} {t : Task α} {f : α → Task Finding} (h : t.Quiet)
    (hf : ∀ a, (f a).Notes) : (t >>= f).Notes := by
  change (t.bind f).Notes
  induction t with
  | done a => exact hf a
  | failed e | crashed message => trivial
  | readSpan position next ih => exact fun code => ih code (h code)
  | lookUp symbol next ih => exact fun answer => ih answer (h answer)
  | generate index g next ih => exact h.elim
  | note entry next ih => exact h.elim

/-- What a step of such a task does to the log. -/
theorem Notes.step {t t' : Task Finding} (h : t.Notes) (hs : t.Steps services w t' w')
    (hlook : ∀ symbol w, Aside s S w (services.definition symbol w).2) :
    t'.Notes ∧ Aside s S w w' ∨
      ∃ entry f, t' = .done f ∧ entry.told = f.told ∧ w' = services.log entry w := by
  cases hs with
  | @read _ _ _ code => exact .inl ⟨h code,aside_still rfl rfl rfl⟩
  | unreadable => exact .inl ⟨trivial,aside_still rfl rfl rfl⟩
  | @found symbol _ _ answer _ looked =>
    have ha := hlook symbol w
    rw [looked] at ha
    exact .inl ⟨h answer,ha⟩
  | @broken symbol _ _ _ _ looked =>
    have ha := hlook symbol w
    rw [looked] at ha
    exact .inl ⟨trivial,ha⟩
  | @completed _ _ _ _ text _ asked =>
    obtain rfl : _ = w' := congrArg Prod.snd asked
    exact .inl ⟨h text,aside_still rfl rfl rfl⟩
  | refused asked | crashed asked =>
    obtain rfl : _ = w' := congrArg Prod.snd asked
    exact .inl ⟨trivial,aside_still rfl rfl rfl⟩
  | @noted entry next _ =>
    obtain ⟨f,rfl,hf⟩ := h
    exact .inr ⟨entry,f,rfl,hf,rfl⟩

end Task

theorem analyze_notes (p : Plan) (index : Nat) (e : Endpoint) : (analyze p index e).Notes := by
  unfold analyze
  refine (prompt_quiet p e).bind_notes ?_
  intro prompt text
  exact ⟨_,rfl,rfl⟩

/-- A task that is under way either has its finding, or has yet to note the call of it. -/
def Standing.Notes : Standing → Prop
  | .working t => t.Notes ∨ ∃ f, t = .done f
  | _ => True

/-- The finding that a task has, but has not handed in. -/
def Standing.finding? : Standing → Option Finding
  | .working (.done f) => some f
  | _ => none

namespace Pool

/-- The findings that the tasks of a pool have come to. -/
def held (p : Pool) : List Finding :=
  p.arrivals.filterMap (fun x => x.2.finding?) ++ p.slots.filterMap fun slot => slot.standing.finding?

def Phase.finding? : Phase → Option Finding
  | .waiting => none
  | .working t => (Standing.working t).finding?
  | .arrived a => a.finding?

/-- A finding counts once, before and after it is handed in. -/
theorem held_perm (pre post : List Slot) (arrivals : List (Job × Arrival)) (job : Job) (phase : Phase) :
    (held ⟨pre ++ ⟨job,phase.standing⟩ :: post,
      arrivals ++ (phase.arrival?.map (job,·)).toList⟩).Perm
    (phase.finding?.toList ++ held ⟨pre ++ post,arrivals⟩) := by
  unfold held
  simp only [List.filterMap_append,List.filterMap_cons]
  cases phase with
  | waiting => simp [Phase.standing,Phase.arrival?,Phase.finding?,Standing.finding?]
  | working t =>
    simp only [Phase.standing,Phase.arrival?,Phase.finding?,Option.map_none,Option.toList_none,
      List.filterMap_nil,List.append_nil]
    cases (Standing.working t).finding? with
    | none => simp
    | some f =>
      refine (List.Perm.append_left _ List.perm_middle).trans ?_
      exact List.perm_middle
  | arrived a =>
    simp only [Phase.standing,Phase.arrival?,Phase.finding?,Standing.finding?,Option.map_some,
      Option.toList_some,List.filterMap_cons,List.filterMap_nil]
    cases a.finding? with
    | none => simp
    | some f =>
      simp only [List.append_assoc,List.singleton_append,Option.toList_some]
      exact List.perm_middle

/-- What a change does to the log: the task comes to a finding just if its call is noted. -/
theorem Change.notes {plan : Plan} {job : Job} {before after : Phase}
    (change : Change plan services job before w after w') (h : before.standing.Notes)
    (hlook : ∀ symbol w, Aside s S w (services.definition symbol w).2) :
    after.standing.Notes ∧ before.arrival? = none ∧
      (after.finding? = before.finding? ∧ Aside s S w w' ∨
        ∃ entry f, before.finding? = none ∧ after.finding? = some f ∧ entry.told = f.told ∧
          w' = services.log entry w) := by
  have unended {t : Task Finding} (h : t.Notes) : (Phase.working t).finding? = none := by
    cases t with
    | done f => exact h.elim
    | failed | crashed | readSpan | lookUp | generate | note => rfl
  cases change with
  | start going =>
    have hnotes := analyze_notes plan job.index job.endpoint
    exact ⟨.inl hnotes,rfl,.inl ⟨unended hnotes,aside_still rfl rfl rfl⟩⟩
  | skip stopped => exact ⟨trivial,rfl,.inl ⟨rfl,aside_still rfl rfl rfl⟩⟩
  | @step t _ t' _ steps =>
    have hnotes : t.Notes := by
      rcases h with h | ⟨f,rfl⟩
      · exact h
      · cases steps
    rcases hnotes.step steps hlook with ⟨hafter,haside⟩ | ⟨entry,f,rfl,htold,hw⟩
    · exact ⟨.inl hafter,rfl,.inl ⟨(unended hafter).trans (unended hnotes).symm,haside⟩⟩
    · exact ⟨.inr ⟨f,rfl⟩,rfl,.inr ⟨entry,f,unended hnotes,rfl,htold,hw⟩⟩
  | @finish t _ ending ended =>
    refine ⟨trivial,rfl,.inl ⟨?_,aside_still rfl rfl rfl⟩⟩
    cases t <;> cases ended <;> rfl

/-- The calls that a pool has noted are those of the findings that its tasks have come to. -/
structure Noted (s : Session) (S : Location) (time : String) (old : List CallLog.Entry) (p : Pool)
    (w : World) : Prop where
  noted : ∃ new, s.Logged S time (old ++ new) w ∧
    (new.map CallLog.Entry.told).Perm (p.held.map Finding.told)
  notes : ∀ slot ∈ p.slots, slot.standing.Notes

theorem Noted.move {plan : Plan} {mayCancel : Prop} {p p' : Pool} (h : Noted s S time old p w)
    (hd : Named s.dir) (hl : services.callDir = some s.callDir)
    (hlook : ∀ symbol w, Aside s S w (services.definition symbol w).2)
    (hm : Move plan services mayCancel (p,w) (p',w')) : Noted s S time old p' w' := by
  obtain ⟨⟨new,hlogged,hnew⟩,hnotes⟩ := h
  cases hm with
  | cancel may => exact ⟨⟨new,hlogged.aside (aside_still rfl rfl rfl),hnew⟩,hnotes⟩
  | @task pre post arrivals job before after _ _ change =>
    obtain ⟨hafter,hnone,heffect⟩ := change.notes (hnotes ⟨job,before.standing⟩ (by simp)) hlook
    have hbefore := held_perm pre post arrivals job before
    rw [hnone,Option.map_none,Option.toList_none,List.append_nil] at hbefore
    have hheld := held_perm pre post arrivals job after
    refine ⟨?_,?_⟩
    · rcases heffect with ⟨hsame,haside⟩ | ⟨entry,f,hno,hf,htold,rfl⟩
      · rw [← hsame] at hbefore
        exact ⟨new,hlogged.aside haside,hnew.trans ((hbefore.trans hheld.symm).map _)⟩
      · refine ⟨new ++ [entry],?_,?_⟩
        · rw [← List.append_assoc]
          exact hlogged.log hd hl entry
        · rw [hno,Option.toList_none,List.nil_append] at hbefore
          rw [hf,Option.toList_some,List.singleton_append] at hheld
          rw [List.map_append,List.map_singleton,htold]
          refine (List.perm_append_singleton _ _).trans ?_
          exact ((hnew.trans (hbefore.map _)).cons _).trans (hheld.map Finding.told).symm
    · intro slot hs
      simp only [List.mem_append,List.mem_cons] at hs
      rcases hs with hs | rfl | hs
      · exact hnotes slot (by simp [hs])
      · exact hafter
      · exact hnotes slot (by simp [hs])

end Pool

end Analysis

end EndpointAudit
