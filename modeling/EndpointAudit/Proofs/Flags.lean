import EndpointAudit.CommandLine
import EndpointAudit.Proofs.SpanTexts

namespace EndpointAudit.CommandLine

/-- The options in an argument that starts with a single dash. What follows an option that takes a value
is the value. -/
def shortsGiven : List Char → List Switch
  | [] => []
  | c :: cs =>
    match shortSwitches.lookup c with
    | none => []
    | some (.value o) => [.value o]
    | some switch => switch :: shortsGiven cs

/-- The option in an argument that starts with two dashes, which have been dropped. -/
def longGiven (cs : List Char) : Option Switch :=
  longSwitches.lookup (String.ofList ((Text.cutFirst (· == '=') cs).elim cs Prod.fst))

/-- The options that an argument gives. -/
def given (arg : String) : List Switch :=
  match formOf arg with
  | .long cs => (longGiven cs).toList
  | .short cs => shortsGiven cs
  | _ => []

namespace Reading

/-- A reading holds something for an option, or will hold it once the pending option is checked. -/
def Holds (r : Reading) : Switch → Prop
  | .value o => (∃ v, (o,v) ∈ r.values) ∨ (∃ v, r.pending = some (o,v)) ∨
      o = .workers ∧ ∃ n, r.workers = some n
  | .verbose => r.verbose = true
  | .help | .version => False

/-- On the way from one reading to another, these options have come in at most. -/
def Gains (r r' : Reading) (switches : List Switch) : Prop :=
  ∀ switch, r'.Holds switch → r.Holds switch ∨ switch ∈ switches

variable {r r' r'' : Reading} {switches switches' : List Switch}

theorem Gains.refl (r : Reading) : r.Gains r [] :=
  fun _ => .inl

theorem Gains.trans (h : r.Gains r' switches) (h' : r'.Gains r'' switches') :
    r.Gains r'' (switches ++ switches') := by
  intro switch hs
  rcases h' switch hs with hs | hs
  · exact (h switch hs).imp_right (List.mem_append_left _)
  · exact .inr (List.mem_append_right _ hs)

theorem store_gains {o : ValueOption} {value : String} (h : r.store o value = .ok r') :
    r.Gains r' [.value o] := by
  unfold store at h
  split at h
  · cases h
  split at h
  · split at h
    · cases h
      rintro (_ | _ | _ | _) hs <;> grind [Holds]
    · cases h
  · cases h
    rintro (_ | _ | _ | _) hs <;> grind [Holds]

theorem settle_gains (h : r.settle = .ok r') : r.Gains r' [] := by
  unfold settle at h
  split at h
  · cases h
    exact Gains.refl r
  · cases h
  · rename_i o value hpending
    intro switch hs
    have hstored := store_gains h switch hs
    cases switch <;> grind [Holds]

theorem meetValue_gains {o : ValueOption} {value : Option String}
    (h : r.meetValue o value = .ok r') : r.Gains r' [.value o] := by
  cases value with
  | some value =>
    obtain ⟨r₁,hsettle,hstore⟩ := bind_eq_ok_iff.mp h
    exact (settle_gains hsettle).trans (store_gains hstore)
  | none =>
    obtain ⟨r₁,hsettle,hpend⟩ := bind_eq_ok_iff.mp h
    cases hpend
    refine (settle_gains hsettle).trans ?_
    rintro (_ | _ | _ | _) hs <;> grind [Holds]

theorem meetVerbose_gains (h : r.meetVerbose = .ok r') : r.Gains r' [.verbose] := by
  obtain ⟨r₁,hsettle,hset⟩ := bind_eq_ok_iff.mp h
  split at hset
  · cases hset
  cases hset
  refine (settle_gains hsettle).trans ?_
  rintro (_ | _ | _ | _) hs <;> grind [Holds]

theorem meetShorts_gains {command : Option Command} {cs : List Char}
    (h : r.meetShorts command shortSwitches cs = .ok r') : r.Gains r' (shortsGiven cs) := by
  induction cs generalizing r with
  | nil =>
    cases h
    exact Gains.refl _
  | cons c cs ih =>
    unfold meetShorts at h
    unfold shortsGiven
    generalize shortSwitches.lookup c = switch at h ⊢
    rcases switch with _ | (o | _ | _ | _)
    · cases h
    · simp only at h ⊢
      split at h <;> exact meetValue_gains h
    · obtain ⟨r₁,hverbose,hrest⟩ := bind_eq_ok_iff.mp h
      exact (meetVerbose_gains hverbose).trans (ih hrest)
    · obtain ⟨_,_,hstop⟩ := bind_eq_ok_iff.mp h
      cases hstop
    · obtain ⟨_,_,hstop⟩ := bind_eq_ok_iff.mp h
      cases hstop

theorem meetLong_gains {command : Option Command} {cs : List Char}
    (h : r.meetLong command longSwitches cs = .ok r') : r.Gains r' (longGiven cs).toList := by
  unfold meetLong at h
  unfold longGiven
  cases hcut : Text.cutFirst (· == '=') cs with
  | some cut =>
    simp only [hcut,Option.elim_some] at h ⊢
    generalize longSwitches.lookup (String.ofList cut.1) = switch at h ⊢
    rcases switch with _ | (o | _ | _ | _)
    · cases h
    · exact meetValue_gains h
    all_goals cases h
  | none =>
    simp only [hcut,Option.elim_none] at h ⊢
    generalize longSwitches.lookup (String.ofList cs) = switch at h ⊢
    rcases switch with _ | (o | _ | _ | _)
    · cases h
    · exact meetValue_gains h
    · exact meetVerbose_gains h
    all_goals
      obtain ⟨_,_,hstop⟩ := bind_eq_ok_iff.mp h
      cases hstop

theorem readArgs_gains {args : List String} {command : Option Command}
    (h : readArgs r args = .ok (r',command)) : r.Gains r' (args.flatMap given) := by
  induction args generalizing r with
  | nil =>
    obtain ⟨r₁,hsettle,hend⟩ := bind_eq_ok_iff.mp h
    cases hend
    exact settle_gains hsettle
  | cons arg args ih =>
    have hended : ∀ {command' : Option Command},
        (do return (← r.settle,command') : Except Usage (Reading × Option Command)) =
          .ok (r',command) → r.Gains r' ((arg :: args).flatMap given) := by
      intro command' hend
      obtain ⟨r₁,hsettle,hend⟩ := bind_eq_ok_iff.mp hend
      cases hend
      exact fun switch hs => (settle_gains hsettle switch hs).imp_right (nomatch ·)
    rw [List.flatMap_cons]
    unfold readArgs at h
    split at h
    · obtain ⟨_,_,hend⟩ := bind_eq_ok_iff.mp h
      exact hended hend
    split at h
    · cases h
    cases hform : formOf arg with
    | endOfOptions =>
      simp only [hform] at h
      obtain ⟨_,_,hend⟩ := bind_eq_ok_iff.mp h
      exact List.flatMap_cons ▸ hended hend
    | long cs =>
      simp only [hform] at h
      obtain ⟨r₁,hlong,hrest⟩ := bind_eq_ok_iff.mp h
      simp only [given,hform]
      exact (meetLong_gains hlong).trans (ih hrest)
    | short cs =>
      simp only [hform] at h
      obtain ⟨r₁,hshorts,hrest⟩ := bind_eq_ok_iff.mp h
      simp only [given,hform]
      exact (meetShorts_gains hshorts).trans (ih hrest)
    | plain =>
      simp only [hform] at h
      simp only [given,hform]
      split at h
      · rename_i o hpending
        have hvalued : r.Gains { r with pending := some (o,some arg) } [] := by
          rintro (_ | _ | _ | _) hs <;> grind [Holds]
        exact hvalued.trans (ih h)
      · cases h

end Reading

/-- What an invocation holds for an option. -/
def Invocation.Holds (i : Invocation) : Switch → Prop
  | .value .project => True
  | .value .output => ∃ v, i.output = some v
  | .value .config => ∃ v, i.config = some v
  | .value .workers => ∃ n, i.workers = some n
  | .value .model => ∃ v, i.model = some v
  | .value .templates => ∃ v, i.templates = some v
  | .verbose => i.verbose = true
  | .help | .version => False

theorem mem_of_lookup {α β : Type} [BEq α] [LawfulBEq α] {a : α} {b : β} {xs : List (α × β)}
    (h : xs.lookup a = some b) : (a,b) ∈ xs := by
  obtain ⟨front,back,rfl,_⟩ := List.lookup_eq_some_iff.mp h
  exact List.mem_append_right _ List.mem_cons_self

/-- An invocation holds nothing but what the arguments give. -/
theorem parse_given {args : List String} {i : Invocation} (h : parse args = .ok i) {switch : Switch}
    (hs : i.Holds switch) : ∃ arg ∈ args, switch ∈ given arg := by
  obtain ⟨⟨r,command⟩,hread,h⟩ := bind_eq_ok_iff.mp h
  have hgains : r.Holds switch → ∃ arg ∈ args, switch ∈ given arg := by
    intro hr
    rcases Reading.readArgs_gains hread switch hr with hnone | hsome
    · rcases switch with o | _ | _ | _
      · rcases hnone with ⟨_,hnone⟩ | ⟨_,hnone⟩ | ⟨_,_,hnone⟩
        all_goals cases hnone
      all_goals cases hnone
    · exact List.mem_flatMap.mp hsome
  apply hgains
  simp only at h
  split at h
  · cases h
  rename_i project hproject
  cases h
  rcases switch with (_ | _ | _ | _ | _ | _) | _ | _ | _
  case value.project => exact .inl ⟨_,mem_of_lookup hproject⟩
  case value.workers => exact .inr (.inr ⟨rfl,hs⟩)
  case verbose => exact hs
  case help | version => exact hs
  all_goals
    obtain ⟨v,hv⟩ := hs
    exact .inl ⟨v,mem_of_lookup hv⟩

end EndpointAudit.CommandLine
