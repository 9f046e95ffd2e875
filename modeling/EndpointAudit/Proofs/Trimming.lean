import EndpointAudit.Text.Blank

namespace EndpointAudit.Text

variable {cs core front : List Char}

/-- What is left of some characters without the blanks at both ends. -/
structure Core (cs core : List Char) : Prop where
  inside : ∃ before after, cs = before ++ (core ++ after) ∧ (∀ c ∈ before, isBlank c = true) ∧
    ∀ c ∈ after, isBlank c = true
  first : ∀ c ∈ core.head?, isBlank c = false
  last : ∀ c ∈ core.getLast?, isBlank c = false

theorem dropWhile_blank (hf : ∀ c ∈ front, isBlank c = true) (hc : ∀ c ∈ cs.head?, isBlank c = false) :
    (front ++ cs).dropWhile isBlank = cs := by
  rw [List.dropWhile_append_of_pos hf]
  cases cs with
  | nil => rfl
  | cons c cs => exact List.dropWhile_cons_of_neg (by simp [hc c rfl])

theorem not_blank_of_dropWhile {c : Char} (cs : List Char) (h : c ∈ (cs.dropWhile isBlank).head?) :
    isBlank c = false := by
  have hfirst := List.head?_dropWhile_not isBlank cs
  rw [Option.mem_def.mp h] at hfirst
  exact hfirst

theorem core_trimChars (cs : List Char) : Core cs (trimChars cs) := by
  obtain ⟨after,hafter,hblank⟩ := dropBlankEnd_append (cs.dropWhile isBlank)
  refine ⟨⟨cs.takeWhile isBlank,after,?_,?_,hblank⟩,?_,?_⟩
  · rw [trimChars,← hafter,List.takeWhile_append_dropWhile]
  · exact List.all_eq_true.mp List.all_takeWhile
  · intro c hc
    refine not_blank_of_dropWhile cs ?_
    rw [hafter,List.head?_append]
    exact Option.or_eq_some_iff.mpr (.inl hc)
  · intro c hc
    rw [trimChars,dropBlankEnd,List.getLast?_reverse] at hc
    exact not_blank_of_dropWhile _ hc

theorem Core.eq_trimChars (h : Core cs core) : trimChars cs = core := by
  obtain ⟨before,after,rfl,hbefore,hafter⟩ := h.inside
  cases core with
  | nil =>
    have hall : ∀ c ∈ before ++ after, isBlank c = true := List.forall_mem_append.mpr ⟨hbefore,hafter⟩
    have hnone := dropWhile_blank hall (fun c (hc : c ∈ [].head?) => by cases hc)
    rw [List.append_nil] at hnone
    rw [trimChars,List.nil_append,hnone]
    rfl
  | cons c core =>
    have hfirst : ∀ d ∈ (c :: core ++ after).head?, isBlank d = false := h.first
    have hlast : ∀ d ∈ (c :: core).reverse.head?, isBlank d = false := by
      rw [List.head?_reverse]
      exact h.last
    rw [trimChars,dropWhile_blank hbefore hfirst,dropBlankEnd,List.reverse_append,
      dropWhile_blank (fun d hd => hafter d (List.mem_reverse.mp hd)) hlast,List.reverse_reverse]

theorem core_iff : Core cs core ↔ trimChars cs = core :=
  ⟨Core.eq_trimChars,fun h => h ▸ core_trimChars cs⟩

theorem trimChars_inside (cs : List Char) : trimChars cs <:+: cs := by
  obtain ⟨before,after,hcs,_,_⟩ := (core_trimChars cs).inside
  exact ⟨before,after,by rw [List.append_assoc,← hcs]⟩

/-- Characters that are not blank at both ends are left as they are. -/
theorem trimChars_eq_self (hf : ∀ c ∈ cs.head?, isBlank c = false)
    (hl : ∀ c ∈ cs.getLast?, isBlank c = false) : trimChars cs = cs :=
  Core.eq_trimChars ⟨⟨[],[],by simp,by simp,by simp⟩,hf,hl⟩

theorem trimChars_trimChars (cs : List Char) : trimChars (trimChars cs) = trimChars cs :=
  trimChars_eq_self (core_trimChars cs).first (core_trimChars cs).last

theorem trimChars_of_not_blank (h : ∀ c ∈ cs, isBlank c = false) : trimChars cs = cs :=
  trimChars_eq_self (fun c hc => h c (List.mem_of_head? hc)) fun c hc => h c (List.mem_of_getLast? hc)

/-- Trimming takes away the blanks behind the last character that is none. -/
theorem trimChars_eq {first last : Char} (middle : List Char) {blanks : List Char}
    (hf : isBlank first = false) (hl : isBlank last = false) (hb : ∀ c ∈ blanks, isBlank c) :
    trimChars (first :: (middle ++ last :: blanks)) = first :: (middle ++ [last]) := by
  refine Core.eq_trimChars ⟨⟨[],blanks,by simp,by simp,hb⟩,?_,?_⟩
  · rintro c ⟨⟩
    exact hf
  · intro c hc
    rw [← List.cons_append,List.getLast?_concat] at hc
    exact Option.some.inj hc ▸ hl

theorem isBlankText_iff {s : String} : isBlankText s = true ↔ trimChars s.toList = [] := by
  rw [isBlankText,List.all_eq_true]
  constructor
  · intro h
    exact Core.eq_trimChars ⟨⟨s.toList,[],by simp,h,by simp⟩,by simp,by simp⟩
  · intro h
    obtain ⟨before,after,hs,hbefore,hafter⟩ := (core_trimChars s.toList).inside
    rw [h,List.nil_append] at hs
    rw [hs]
    exact List.forall_mem_append.mpr ⟨hbefore,hafter⟩

end EndpointAudit.Text
