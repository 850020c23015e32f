import SessionPool.Proofs.Script.Acts

/-!
# Sessions and their holders

A session that has lost its last holder is let go, and that closes it. So between two commands every
session is held or shut. While holders only come and go, nothing else happens to the sessions: the
ones that are still held stay as they were, and the world hears of nothing but the closing of the
marshals that were idle in the others,

    world = closeEach (what was idle in the sessions let go) (world before).
-/

namespace SessionPool.Script

variable {φ μ ω χ α : Type}

/-- Whoever is held is minded, even when it is loose no more. -/
theorem Moment.minds_of_held {x : Moment φ μ ω} {ref : SessionRef} (hheld : ref ∈ x.state.holds)
    (other : SessionRef) :
    Minds { x with loose := x.loose.filter (· != ref) } other ↔ x.Minds other := by
  constructor
  · exact Or.imp_right fun hloose => (List.mem_filter.mp hloose).1
  · intro hminded
    by_cases hne : other = ref
    · rw [hne]
      exact .inl hheld
    · refine hminded.imp_right fun hloose => ?_
      exact List.mem_filter.mpr ⟨hloose, bne_iff_ne.mpr hne⟩

/-! ### Held or shut -/

/-- Every session that nobody minds is shut, and no closed session has idle marshals. -/
structure Tidy (x : Moment φ μ ω) : Prop where
  drained (ref : SessionRef) (s : Session φ μ) : x.state.client.session? ref = some s → s.Drained
  shut (ref : SessionRef) (s : Session φ μ) :
    x.state.client.session? ref = some s → ¬ x.Minds ref → s.Shut

namespace Tidy

variable {x y : Moment φ μ ω} {ref : SessionRef} {s s' : Session φ μ}

theorem of_sessions_eq (h : Tidy x) (hminds : ∀ ref, y.Minds ref ↔ x.Minds ref)
    (hsessions : y.state.client.sessions = x.state.client.sessions) : Tidy y := by
  have hsession (ref : SessionRef) :
      y.state.client.session? ref = x.state.client.session? ref := by
    rw [Client.session?, Client.session?, hsessions]
  constructor
  · intro ref s hs
    exact h.drained ref s (hsession ref ▸ hs)
  · intro ref s hs hfree
    exact h.shut ref s (hsession ref ▸ hs) ((hminds ref).not.mp hfree)

/-- One session changes, and nobody stops minding the others. -/
theorem of_update (h : Tidy x) (hs : x.state.client.session? ref = some s) (hdrained : s'.Drained)
    (hshut : ¬ y.Minds ref → s'.Shut)
    (hothers : ∀ other, other ≠ ref → x.Minds other → y.Minds other) {w : ω}
    (hclient : y.state.client = x.state.client.update ref s' w) : Tidy y := by
  constructor
  · intro other t ht
    rw [hclient] at ht
    by_cases hother : other = ref
    · subst hother
      rw [Client.session?_update_self hs, Option.some.injEq] at ht
      exact ht ▸ hdrained
    · rw [Client.session?_update_of_ne hother] at ht
      exact h.drained other t ht
  · intro other t ht hfree
    rw [hclient] at ht
    by_cases hother : other = ref
    · subst hother
      rw [Client.session?_update_self hs, Option.some.injEq] at ht
      exact ht ▸ hshut hfree
    · rw [Client.session?_update_of_ne hother] at ht
      exact h.shut other t ht fun hminded => hfree (hothers other hother hminded)

variable [Marshal μ ω]

/-- A session that is closed needs nobody to mind it any more. -/
theorem of_close (h : Tidy x) (ref : SessionRef)
    (hothers : ∀ other, other ≠ ref → x.Minds other → y.Minds other)
    (hclient : y.state.client = (x.state.client.close ref).2) : Tidy y := by
  cases hs : x.state.client.session? ref with
  | none =>
    rw [Client.close_of_none hs] at hclient
    constructor
    · intro other t ht
      rw [hclient] at ht
      exact h.drained other t ht
    · intro other t ht hfree
      rw [hclient] at ht
      refine h.shut other t ht fun hminded => hfree (hothers other ?_ hminded)
      rintro rfl
      rw [hs] at ht
      cases ht
  | some s =>
    rw [Client.close_of_some hs] at hclient
    have hshut : (s.close x.state.client.world).2.1.Shut :=
      .of_close (h.drained ref s hs) x.state.client.world
    exact h.of_update hs hshut.drained (fun _ => hshut) hothers hclient

variable [Source φ μ ω] [World ω χ] [Holder μ α]

/-- **Every act leaves each session minded or shut.** -/
theorem act {tag : Tag φ χ α} (h : Tidy x) (hact : Act tag x y) : Tidy y := by
  cases hact with
  | rehold same sessions => exact h.of_sessions_eq same.minds sessions
  | letGo _ ref =>
    rw [State.letGo]
    split
    · next hheld =>
      exact h.of_sessions_eq (Moment.minds_of_held (List.contains_iff_mem.mp hheld)) rfl
    · refine h.of_close ref (fun other hne hminded => ?_) rfl
      refine hminded.imp_right fun hloose => ?_
      exact List.mem_filter.mpr ⟨hloose, bne_iff_ne.mpr hne⟩
  | build _ b =>
    constructor
    · intro ref s hs
      rcases Client.session?_build_cases hs with hold | ⟨-, -, -, hempty⟩
      · exact h.drained ref s hold
      · exact fun _ => hempty
    · intro ref s hs hfree
      have hfree : ¬ (ref ∈ x.state.holds ∨ ref ∈ (x.state.client.build b).1 :: x.loose) := hfree
      rcases Client.session?_build_cases hs with hold | ⟨-, rfl, -⟩
      · refine h.shut ref s hold fun hminded => hfree ?_
        exact hminded.imp_right (List.mem_cons_of_mem _)
      · exact absurd (.inr (List.mem_cons_self ..)) hfree
  | source _ as f => exact h.of_sessions_eq (fun _ => Iff.rfl) rfl
  | change _ c => exact h.of_sessions_eq (fun _ => Iff.rfl) rfl
  | create f known same sessions => exact h.of_sessions_eq same.minds sessions
  | deed d m others same sessions => exact h.of_sessions_eq same.minds sessions
  | @draw _ _ ref s same hs client =>
    refine h.of_update hs ((h.drained ref s hs).acquire _) (fun hfree => ?_)
      (fun other _ => (same.minds other).mpr) client
    exact (h.shut ref s hs ((same.minds ref).not.mp hfree)).acquire _
  | @giveBack _ _ ref s m same hs client =>
    refine h.of_update hs ((h.drained ref s hs).release m _) (fun hfree => ?_)
      (fun other _ => (same.minds other).mpr) client
    exact (h.shut ref s hs ((same.minds ref).not.mp hfree)).release m _
  | close _ ref => exact h.of_close ref (fun _ _ hminded => hminded) rfl
  | @relabel _ ref s hs id =>
    have hdrained : (s.setRemoteId id).Drained := h.drained ref s hs
    refine h.of_update hs hdrained (fun hfree => ?_)
      (fun _ _ hminded => hminded) rfl
    have hshut := h.shut ref s hs hfree
    exact ⟨hshut.closed, hshut.empty⟩
  | free ref same sessions => exact h.of_sessions_eq same.minds sessions

theorem acts {P : Tag φ χ α → Prop} (h : Tidy x) (hacts : Acts P x y) : Tidy y := by
  induction hacts with
  | refl => exact h
  | tail _ hact ih =>
    obtain ⟨tag, -, hact⟩ := hact
    exact ih.act hact

end Tidy

/-! ### Holders that come and go -/

/-- The idle marshals of a session. -/
def State.idle (st : State φ μ ω) (ref : SessionRef) : List μ :=
  ((st.client.session? ref).map (·.pool.idle)).getD []

/-- Where something is idle there is a session. -/
theorem State.exists_of_idle {st : State φ μ ω} {ref : SessionRef} (h : st.idle ref ≠ []) :
    ∃ s, st.client.session? ref = some s ∧ st.idle ref = s.pool.idle := by
  rw [State.idle] at h ⊢
  cases hs : st.client.session? ref with
  | none =>
    rw [hs] at h
    exact absurd rfl h
  | some s => exact ⟨s, rfl, rfl⟩

/-- Whether an act changes holders only. -/
def Tag.IsShift : Tag φ χ α → Prop
  | .shift | .source _ => True
  | _ => False

variable [Marshal μ ω]

/-- What comes of it when holders come and go. A session that somebody still minds is as before, all
others were let go, and the world hears of nothing but the closing of what was idle in those. -/
structure Shifted (x y : Moment φ μ ω) : Prop where
  old (ref : SessionRef) (s : Session φ μ) : x.state.client.session? ref = some s →
    y.state.client.session? ref = some s ∨
      ¬ y.Minds ref ∧ ∃ s', y.state.client.session? ref = some s' ∧ s'.Shut
  new (ref : SessionRef) (s : Session φ μ) : x.state.client.session? ref = none →
    y.state.client.session? ref = some s → s.pool.idle = []
  world : ∃ gone : List SessionRef,
    (∀ ref ∈ gone, x.state.idle ref ≠ [] ∧ ¬ y.Minds ref) ∧
      y.state.client.world = closeEach (gone.flatMap x.state.idle) x.state.client.world

namespace Shifted

variable {x y z : Moment φ μ ω}

theorem refl (x : Moment φ μ ω) : Shifted x x := by
  refine ⟨fun _ _ hs => .inl hs, fun ref s hnone hs => ?_, [], by simp, rfl⟩
  cases hnone.symm.trans hs

theorem rehold (h : Shifted x y) (hminds : ∀ ref, z.Minds ref ↔ y.Minds ref)
    (hsessions : z.state.client.sessions = y.state.client.sessions)
    (hworld : z.state.client.world = y.state.client.world) : Shifted x z := by
  have hsession (ref : SessionRef) :
      z.state.client.session? ref = y.state.client.session? ref := by
    rw [Client.session?, Client.session?, hsessions]
  obtain ⟨gone, hgone, hclosed⟩ := h.world
  refine ⟨fun ref s hs => ?_, fun ref s hnone hs => ?_, gone, fun ref href => ?_, ?_⟩
  · rw [hsession, hminds]
    exact h.old ref s hs
  · exact h.new ref s hnone (hsession ref ▸ hs)
  · rw [hminds]
    exact hgone ref href
  · rw [hworld, hclosed]

theorem build (h : Shifted x y) (b : Builder φ) :
    Shifted x { y with
      loose := (y.state.client.build b).1 :: y.loose
      state := { y.state with client := (y.state.client.build b).2 } } := by
  -- The new session is minded, but it is none of the old ones.
  have hfree {ref : SessionRef} (hs : (y.state.client.session? ref).isSome = true)
      (hnot : ¬ y.Minds ref) :
      ¬ (ref ∈ y.state.holds ∨ ref ∈ (y.state.client.build b).1 :: y.loose) := by
    rintro (hheld | hloose)
    · exact hnot (.inl hheld)
    · rcases List.mem_cons.mp hloose with rfl | hloose
      · rw [Client.session?_build_new] at hs
        cases hs
      · exact hnot (.inr hloose)
  obtain ⟨gone, hgone, hclosed⟩ := h.world
  refine ⟨fun ref s hs => ?_, fun ref s hnone hs => ?_, gone, fun ref href => ?_, hclosed⟩
  · rcases h.old ref s hs with hsame | ⟨hnot, s', hs', hshut⟩
    · exact .inl (Client.session?_build_of_some hsame b)
    · refine .inr ⟨hfree (by rw [hs']; rfl) hnot, s', ?_, hshut⟩
      exact Client.session?_build_of_some hs' b
  · rcases Client.session?_build_cases hs with hsame | ⟨-, -, -, hidle⟩
    · exact h.new ref s hnone hsame
    · exact hidle
  · obtain ⟨hidle, hnot⟩ := hgone ref href
    obtain ⟨s, hs, -⟩ := State.exists_of_idle hidle
    refine ⟨hidle, hfree ?_ hnot⟩
    rcases h.old ref s hs with hsame | ⟨-, s', hs', -⟩
    · rw [hsame]
      rfl
    · rw [hs']
      rfl

/-- What was idle in a session to begin with still is, or nothing is idle in it. -/
theorem idle_cases (h : Shifted x y) {ref : SessionRef} {t : Session φ μ}
    (ht : y.state.client.session? ref = some t) :
    t.pool.idle = [] ∨ t.pool.idle = x.state.idle ref := by
  cases hs : x.state.client.session? ref with
  | none => exact .inl (h.new ref t hs ht)
  | some s =>
    rcases h.old ref s hs with hsame | ⟨-, s', hs', hshut'⟩
    · rw [ht, Option.some.injEq] at hsame
      refine .inr ?_
      rw [State.idle, hs, hsame]
      rfl
    · rw [ht, Option.some.injEq] at hs'
      exact .inl (hs' ▸ hshut'.empty)

/-- A session that nobody minds any more is closed. -/
theorem close (h : Shifted x y) (htidy : Tidy y) {ref : SessionRef}
    (hfewer : ∀ other, z.Minds other → y.Minds other) (hnot : ¬ z.Minds ref)
    (hclient : z.state.client = (y.state.client.close ref).2) : Shifted x z := by
  obtain ⟨gone, hgone, hclosed⟩ := h.world
  have hgone' (other : SessionRef) (hother : other ∈ gone) :
      x.state.idle other ≠ [] ∧ ¬ z.Minds other :=
    (hgone other hother).imp_right fun hnot hminded => hnot (hfewer other hminded)
  cases ht : y.state.client.session? ref with
  | none =>
    rw [Client.close_of_none ht] at hclient
    refine ⟨fun other s hs => ?_, fun other s => ?_, gone, hgone', by rw [hclient, hclosed]⟩
    · rw [hclient]
      exact (h.old other s hs).imp_right fun ⟨hother, hshut⟩ =>
        ⟨fun hminded => hother (hfewer other hminded), hshut⟩
    · rw [hclient]
      exact h.new other s
  | some t =>
    have hdrained := htidy.drained ref t ht
    have hshut : (t.close y.state.client.world).2.1.Shut := .of_close hdrained _
    rw [Client.close_of_some ht, hdrained.close_world] at hclient
    refine ⟨fun other s hs => ?_, fun other s hnone hs => ?_, ?_⟩
    · rw [hclient]
      by_cases hne : other = ref
      · subst hne
        exact .inr ⟨hnot, _, Client.session?_update_self ht _ _, hshut⟩
      · rw [Client.session?_update_of_ne hne]
        exact (h.old other s hs).imp_right fun ⟨hother, hshut⟩ =>
          ⟨fun hminded => hother (hfewer other hminded), hshut⟩
    · rw [hclient] at hs
      by_cases hne : other = ref
      · subst hne
        rw [Client.session?_update_self ht, Option.some.injEq] at hs
        exact hs ▸ hshut.empty
      · exact h.new other s hnone ((Client.session?_update_of_ne hne _ _).symm.trans hs)
    · rw [hclient]
      show ∃ gone, _ ∧ closeEach t.pool.idle y.state.client.world = _
      by_cases hempty : t.pool.idle = []
      · exact ⟨gone, hgone', by rw [hempty, closeEach_nil, hclosed]⟩
      · have hidle := (h.idle_cases ht).resolve_left hempty
        refine ⟨gone ++ [ref], fun other hother => ?_, ?_⟩
        · rcases List.mem_append.mp hother with hother | hother
          · exact hgone' other hother
          · rw [List.mem_singleton.mp hother]
            exact ⟨hidle ▸ hempty, hnot⟩
        · rw [hclosed, List.flatMap_append, List.flatMap_singleton, hidle, closeEach, closeEach,
            closeEach, List.foldl_append]

theorem letGo (h : Shifted x y) (htidy : Tidy y) (ref : SessionRef) :
    Shifted x { y with loose := y.loose.filter (· != ref), state := y.state.letGo ref } := by
  rw [State.letGo]
  split
  · next hheld =>
    exact h.rehold (Moment.minds_of_held (List.contains_iff_mem.mp hheld)) rfl rfl
  · next hfree =>
    refine h.close htidy (fun other => ?_) (fun hminded => ?_) rfl
    · exact Or.imp_right fun hloose => (List.mem_filter.mp hloose).1
    · rcases hminded with hheld | hloose
      · exact hfree (List.contains_iff_mem.mpr hheld)
      · exact bne_iff_ne.mp (List.mem_filter.mp hloose).2 rfl

variable [Source φ μ ω] [World ω χ] [Holder μ α]

theorem act {tag : Tag φ χ α} (h : Shifted x y) (htidy : Tidy y) (hact : Act tag y z)
    (hshift : tag.IsShift) : Shifted x z := by
  cases hact with
  | rehold same sessions world => exact h.rehold same.minds sessions world
  | letGo _ ref => exact h.letGo htidy ref
  | build _ b => exact h.build b
  | source _ as f => exact h.rehold (fun _ => Iff.rfl) rfl rfl
  | _ => cases hshift

end Shifted

theorem Acts.shifted [Source φ μ ω] [World ω χ] [Holder μ α] {P : Tag φ χ α → Prop}
    {x y : Moment φ μ ω} (hshift : ∀ tag, P tag → tag.IsShift) (htidy : Tidy x)
    (hacts : Acts P x y) : Shifted x y := by
  induction hacts with
  | refl => exact .refl x
  | tail hacts hact ih =>
    obtain ⟨tag, hP, hact⟩ := hact
    exact ih.act (htidy.acts hacts) hact (hshift tag hP)

end SessionPool.Script
