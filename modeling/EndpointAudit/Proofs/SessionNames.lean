import EndpointAudit.Proofs.FreshSessions

namespace EndpointAudit

open EndpointAudit.Path

namespace FileTree

variable {t t' : FileTree} {path : String} {d : Location}

/-- A path that leads to a directory goes up from directories only. -/
theorem Sound.straight (hs : t.Sound) (h : t.locate path = .ok (d,some .dir)) : t.Straight path := by
  intro first rest hp hup
  have hwalk := (locate_eq_ok_iff.mp h).2
  rw [hp] at hwalk
  rcases walk_append hs.closed maxLinks (hs.base_dir path) first with ⟨d',k,hd',hgo⟩ | ⟨_,herror⟩
  · have hfirst := hgo []
    rw [List.append_nil,walk_nothing (.inl rfl),hd'] at hfirst
    exact ⟨d',hfirst⟩
  · obtain ⟨f,hf⟩ := herror rest ⟨"..",hup,by decide⟩
    rw [hf] at hwalk
    cases hwalk

/-- A root in which a path leads somewhere is straight. -/
theorem Sound.straight_root (hs : t.Sound) {root name : String} {n : Node} (hn : Plain name)
    (h : t.locate (join root name) = .ok (d,some n)) : t.Straight root := by
  by_cases hroot : root = ""
  · rw [hroot]
    exact straight_of_dotless (by decide)
  · obtain ⟨_,_,hd,_⟩ := hs.child_found hroot hn h
    exact hs.straight hd

/-- What leads to a directory still leads there. -/
def KeepsDirs (t t' : FileTree) : Prop :=
  ∀ path loc, t.locate path = .ok (loc,some .dir) → t'.locate path = .ok (loc,some .dir)

end FileTree

open FileTree

namespace Session

variable {t t' t₁ : FileTree} {root : String} {clock : Clock} {s s' : Session} {ss : List Session}

theorem openAt_leads {dir id : String} (h : openAt t dir id = .ok (s,t')) (hs : t.Sound)
    (hd : Named dir) :
    s = ⟨id,dir⟩ ∧ t'.Sound ∧ t.Grows t' ∧ ∃ S, t'.locate dir = .ok (S,some .dir) := by
  obtain ⟨t₁,h₁,h⟩ := bind_eq_ok_iff.mp h
  obtain ⟨t₂,h₂,h⟩ := bind_eq_ok_iff.mp h
  cases h
  have hdata : Plain "data" := by decide
  have hrecord : Plain "API" := by decide
  obtain ⟨hs₁,ha₁,hl⟩ := (makeDirs_dug h₁).adds hs
  obtain ⟨hs₂,ha₂,_⟩ := (makeDirs_dug h₂).adds hs₁
  obtain ⟨_,hl⟩ := hl (named_join _ hrecord).ne_empty
  obtain ⟨_,_,hl,_⟩ := hs₁.child_found (named_join dir hdata).ne_empty hrecord hl
  obtain ⟨S,_,hl,_⟩ := hs₁.child_found hd.ne_empty hdata hl
  exact ⟨rfl,hs₂,ha₁.toGrows.trans ha₂.toGrows,S,ha₂.locate hl⟩

theorem FirstFree.unique {stamp : String} {j k : Nat} (hj : FirstFree t root stamp j)
    (hk : FirstFree t root stamp k) : j = k := by
  rcases Nat.lt_trichotomy j k with hlt | he | hlt
  · exact absurd (hk.taken j hlt) (by simp [hj.free])
  · exact he
  · exact absurd (hj.taken k hlt) (by simp [hk.free])

/-- A session is made under the first free candidate, and in a new directory, unless the root goes up from
a directory that was missing. -/
theorem create_leads (hs : t.Sound) (hc : Plain clock.stamp) {k : Nat}
    (hk : FirstFree t root clock.stamp k) (h : create t root clock = .ok (s,t')) :
    s.id = candidate clock.stamp k ∧ s.dir = join root s.id ∧ t'.Sound ∧ t.Grows t' ∧
      ∃ S, t'.locate s.dir = .ok (S,some .dir) ∧ (t.Straight root → t.node? S = none) := by
  obtain ⟨j,hj,hopen⟩ := create_eq hs hc root
  obtain rfl := hj.unique hk
  obtain ⟨rfl,hs',hg,S,hS⟩ := openAt_leads (hopen.symm.trans h) hs (named_join root (candidate_plain hc j))
  refine ⟨rfl,rfl,hs',hg,S,hS,?_⟩
  intro hp
  obtain ⟨_,S',hmade⟩ := create_created h hs hc hp
  obtain ⟨rfl,_⟩ := Prod.mk.inj (Except.ok.inj (hS.symm.trans hmade.leads))
  exact hmade.fresh

/-- Two sessions have names, paths and directories of their own. -/
def Separate (t : FileTree) (s s' : Session) : Prop :=
  s.id ≠ s'.id ∧ s.dir ≠ s'.dir ∧ ∃ S S', t.locate s.dir = .ok (S,some .dir) ∧
    t.locate s'.dir = .ok (S',some .dir) ∧ S ≠ S'

/-- Sessions made one after another under a root, the last one first. In between anything may happen that
leaves directories where they are. -/
inductive Made (root : String) (t : FileTree) : List Session → FileTree → Prop
  | start : Made root t [] t
  | between {ss : List Session} {t₁ t' : FileTree} (made : Made root t ss t₁) (kept : t₁.KeepsDirs t')
    (sound : t'.Sound) : Made root t ss t'
  | next {ss : List Session} {t₁ t' : FileTree} {s : Session} {clock : Clock} (made : Made root t ss t₁)
    (plain : Plain clock.stamp) (created : create t₁ root clock = .ok (s,t')) : Made root t (s :: ss) t'

/-- Sessions that stand side by side under a root. -/
structure SideBySide (t : FileTree) (root : String) (ss : List Session) : Prop where
  sound : t.Sound
  named : ∀ s ∈ ss, Plain s.id ∧ s.dir = join root s.id
  standing : ∀ s ∈ ss, ∃ S, t.locate s.dir = .ok (S,some .dir)
  separate : ss.Pairwise (Separate t)

theorem SideBySide.between (h : SideBySide t root ss) (hk : t.KeepsDirs t') (hs : t'.Sound) :
    SideBySide t' root ss where
  sound := hs
  named := h.named
  standing s hm := (h.standing s hm).imp fun _ hS => hk _ _ hS
  separate := h.separate.imp fun ⟨hid,hdir,S,S',hS,hS',hne⟩ =>
    ⟨hid,hdir,S,S',hk _ _ hS,hk _ _ hS',hne⟩

theorem SideBySide.next (h : SideBySide t root ss) (hc : Plain clock.stamp)
    (hcreate : create t root clock = .ok (s,t')) : SideBySide t' root (s :: ss) := by
  obtain ⟨k,hk,_⟩ := create_eq h.sound hc root
  obtain ⟨hid,hdir,hs',hg,S,hS,hfresh⟩ := create_leads h.sound hc hk hcreate
  have hplain : Plain s.id := hid ▸ candidate_plain hc k
  have hkeeps : t.KeepsDirs t' := fun _ _ hl => hg.locate hl
  obtain ⟨_,hnamed,hstanding,hseparate⟩ := h.between hkeeps hs'
  refine ⟨hs',List.forall_mem_cons.mpr ⟨⟨hplain,hdir⟩,hnamed⟩,
    List.forall_mem_cons.mpr ⟨⟨S,hS⟩,hstanding⟩,List.pairwise_cons.mpr ⟨?_,hseparate⟩⟩
  intro s' hm
  obtain ⟨S',hS'⟩ := h.standing s' hm
  obtain ⟨hplain',hdir'⟩ := h.named s' hm
  have hdirs : s.dir ≠ s'.dir := by
    intro he
    have hfree := hk.free
    rw [← hid,← hdir,he,pathExists_of_locate hS'] at hfree
    cases hfree
  refine ⟨?_,hdirs,S,S',hS,hkeeps _ _ hS',?_⟩
  · intro he
    exact hdirs (by rw [hdir,hdir',he])
  · rintro rfl
    -- the root leads somewhere, as an earlier session stands under it
    have hnew := hfresh (h.sound.straight_root hplain' (hdir' ▸ hS'))
    rw [← locate_node hS'] at hnew
    cases hnew

theorem Made.sideBySide (h : Made root t ss t') (hs : t.Sound) : SideBySide t' root ss := by
  induction h with
  | start => exact ⟨hs,by simp,by simp,.nil⟩
  | between made kept sound ih => exact ih.between kept sound
  | next made plain created ih => exact ih.next plain created

/-- The search for a name ends with the first candidate that does not exist under the root, after at most
as many steps as there are names. The session has it as its name, its path led nowhere before, and its
directory is a new one if the root was there or is straight. Sessions made one after another under a
root, at whatever times, have names, paths and directories of their own. -/
theorem create_firstFree (hs : t.Sound) (hc : Plain clock.stamp) (root : String) :
    (∃ k, FirstFree t root clock.stamp k ∧
      (∀ fuel, k < fuel → freeId t root clock.stamp fuel 0 = candidate clock.stamp k) ∧
      (∀ names : List String, (∀ name, Plain name → t.pathExists (join root name) = true → name ∈ names) →
        k ≤ names.length) ∧
      ∀ s t', create t root clock = .ok (s,t') → s.id = candidate clock.stamp k ∧
        s.dir = join root s.id ∧ t.pathExists s.dir = false ∧ ∃ S, t'.locate s.dir = .ok (S,some .dir) ∧
          (t.pathExists root = true ∨ t.Straight root → t.node? S = none)) ∧
    ∀ ss t', Made root t ss t' → ss.Pairwise (Separate t') := by
  obtain ⟨k,hk,_⟩ := create_eq hs hc root
  refine ⟨⟨k,hk,?_,fun names hnames => hk.le_length hc hnames,?_⟩,fun ss t' h => (h.sideBySide hs).separate⟩
  · intro fuel hfuel
    exact hk.freeId_eq (Nat.zero_le k) (by omega)
  · intro s t' h
    obtain ⟨hid,hdir,hs',hg,S,hS,hfresh⟩ := create_leads hs hc hk h
    have hfree : t.pathExists s.dir = false := by
      rw [hdir,hid]
      exact hk.free
    refine ⟨hid,hdir,hfree,S,hS,fun hroot => hfresh ?_⟩
    rcases hroot with hroot | hstraight
    · obtain ⟨d,n,hl⟩ := exists_locate hroot
      have hne : root ≠ "" := (locate_eq_ok_iff.mp hl).1.named
      obtain ⟨d',_,hl',_⟩ := hs'.child_found hne (hid ▸ candidate_plain hc k) (hdir ▸ hS)
      obtain ⟨rfl,hn⟩ := Prod.mk.inj (Except.ok.inj ((hg.locate hl).symm.trans hl'))
      cases hn
      exact hs.straight hl
    · exact hstraight

/-- A directory with earlier sessions of one second, one of which was removed. -/
def lobby : FileTree where
  entries := [(["logs"],.dir),(["logs","20240101_120000"],.dir),
    (["logs","20240101_120000_1"],.file ⟨#[]⟩ false),(["logs","20240101_120000_3"],.dir)]
  cwd := []

theorem lobby_sound : lobby.Sound := by
  decide

/-- The gap is filled. -/
theorem create_firstFree_lobby :
    lobby.Sound ∧ Plain (Clock.ofSeconds 1704110400).stamp ∧
      freeId lobby "/logs" (Clock.ofSeconds 1704110400).stamp 3 0 = "20240101_120000_2" ∧
      ∃ s t', create lobby "/logs" (Clock.ofSeconds 1704110400) = .ok (s,t') ∧
        s.id = "20240101_120000_2" ∧ ∃ S, t'.locate s.dir = .ok (S,some .dir) ∧ lobby.node? S = none := by
  have hplain := Clock.ofSeconds_plain 1704110400
  obtain ⟨⟨k,hk,hsearch,_,hmade⟩,_⟩ := create_firstFree lobby_sound hplain "/logs"
  have hgap : FirstFree lobby "/logs" (Clock.ofSeconds 1704110400).stamp 2 :=
    ⟨by decide +kernel,by decide +kernel⟩
  obtain rfl := hk.unique hgap
  have hname : candidate (Clock.ofSeconds 1704110400).stamp 2 = "20240101_120000_2" := by decide +kernel
  refine ⟨lobby_sound,hplain,(hsearch 3 (by decide)).trans hname,?_⟩
  have hok : (create lobby "/logs" (Clock.ofSeconds 1704110400)).isOk = true := by decide +kernel
  cases hcreate : create lobby "/logs" (Clock.ofSeconds 1704110400) with
  | error e =>
    rw [hcreate] at hok
    cases hok
  | ok made =>
    obtain ⟨hid,_,_,S,hS,hnew⟩ := hmade made.1 made.2 hcreate
    exact ⟨made.1,made.2,rfl,hid.trans hname,S,hS,hnew (.inl (by decide +kernel))⟩

/-- A directory with one earlier session. -/
def cellar : FileTree where
  entries := [(["logs"],.dir),(["logs","20240101_120000"],.dir)]
  cwd := []

theorem cellar_sound : cellar.Sound := by
  decide

/-- Under a root that goes up behind a missing directory the name of an earlier session seems to be free.
The missing directory is then made on the way, and the session has the directory of the earlier one. -/
theorem create_reuses_cellar :
    cellar.Sound ∧ Plain (Clock.ofSeconds 1704110400).stamp ∧
      cellar.node? ["logs","20240101_120000"] = some .dir ∧
      ∃ s t', create cellar "/m/../logs" (Clock.ofSeconds 1704110400) = .ok (s,t') ∧
        s.id = "20240101_120000" ∧ t'.locate s.dir = .ok (["logs","20240101_120000"],some .dir) := by
  have hplain := Clock.ofSeconds_plain 1704110400
  have hfree : FirstFree cellar "/m/../logs" (Clock.ofSeconds 1704110400).stamp 0 :=
    ⟨by decide +kernel,nofun⟩
  have hplace : (create cellar "/m/../logs" (Clock.ofSeconds 1704110400)).toOption.bind
      (fun (s,t') => (t'.locate s.dir).toOption.map Prod.fst) =
        some ["logs","20240101_120000"] := by decide +kernel
  cases hcreate : create cellar "/m/../logs" (Clock.ofSeconds 1704110400) with
  | error e =>
    rw [hcreate] at hplace
    cases hplace
  | ok made =>
    obtain ⟨hid,_,_,_,S,hS,_⟩ := create_leads cellar_sound hplain hfree hcreate
    rw [hcreate] at hplace
    obtain rfl : S = ["logs","20240101_120000"] := by simpa [hS,Except.toOption] using hplace
    exact ⟨cellar_sound,hplain,rfl,made.1,made.2,rfl,hid.trans (by decide +kernel),hS⟩

end Session

end EndpointAudit
