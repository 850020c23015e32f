import Mathlib.Data.List.Forall2
import SessionPool.Proofs.Json.Objects

/-!
# What objects say of records

An object is accepted for a record exactly when none of the names that the record knows comes twice,
each member that it knows stands for something, and what it requires is there. Then each setting of
the record is what its member stands for, wherever that comes, or keeps its default if there is
none.
-/

namespace SessionPool.Json

/-! ### What an object says -/

/-- None of the names comes twice. -/
def Once (names : List String) (ms : List (String × Datum)) : Prop :=
  ∀ name ∈ names, (ms.map (·.1)).count name ≤ 1

/-- What an object says of a setting: if it has the member, what the value stands for, and else the
default. -/
structure Sets {α : Type} (ms : List (String × Datum)) (name : String) (R : Datum → α → Prop)
    (default a : α) : Prop where
  given : ∀ v, (name, v) ∈ ms → R v a
  absent : name ∉ ms.map (·.1) → a = default

/-- A value stands for one thing, so an object does not say two things of a setting. -/
theorem Sets.unique {α : Type} {ms : List (String × Datum)} {name : String} {R : Datum → α → Prop}
    {default a b : α} (hR : ∀ v a b, R v a → R v b → a = b) (ha : Sets ms name R default a)
    (hb : Sets ms name R default b) : a = b := by
  by_cases hmem : name ∈ ms.map (·.1)
  · obtain ⟨⟨_, v⟩, hv, rfl⟩ := List.mem_map.mp hmem
    exact hR v a b (ha.given v hv) (hb.given v hv)
  · rw [ha.absent hmem, hb.absent hmem]

/-- What an object says of a setting that it must have. -/
structure Gives {α : Type} (ms : List (String × Datum)) (name : String) (R : Datum → α → Prop)
    (a : α) : Prop where
  present : name ∈ ms.map (·.1)
  given : ∀ v, (name, v) ∈ ms → R v a

theorem gives_iff {α : Type} {ms : List (String × Datum)} {name : String} {R : Datum → α → Prop}
    {default a : α} :
    Gives ms name R a ↔ Sets ms name R default a ∧ name ∈ ms.map (·.1) := by
  constructor
  · intro h
    exact ⟨⟨h.given, fun habsent => absurd h.present habsent⟩, h.present⟩
  · rintro ⟨hsets, hpresent⟩
    exact ⟨hpresent, hsets.given⟩

namespace Record

variable {σ β : Type} {record : Record σ} {Means : String → Datum → (σ → σ) → Prop}
  {seen seen' : List String} {acc a : σ} {ms : List (String × Datum)} {name : String}

/-- The names of the members. -/
def names (record : Record σ) : List String := record.members.map (·.name)

theorem mem_names_of_member? {member : Member σ} (h : record.member? name = some member) :
    member ∈ record.members ∧ member.name = name :=
  ⟨List.mem_of_find?_eq_some h, by simpa using List.find?_some h⟩

theorem mem_names_iff : name ∈ record.names ↔ ∃ member, record.member? name = some member := by
  constructor
  · intro h
    obtain ⟨m, hm, rfl⟩ := List.mem_map.mp h
    cases hfind : record.member? m.name with
    | none => simpa using List.find?_eq_none.mp hfind m hm
    | some member => exact ⟨member, rfl⟩
  · rintro ⟨member, h⟩
    obtain ⟨hm, rfl⟩ := mem_names_of_member? h
    exact List.mem_map_of_mem hm

theorem ne_of_foreign {other : String} (hname : name ∈ record.names)
    (hforeign : record.member? other = none) : name ≠ other := by
  rintro rfl
  obtain ⟨member, h⟩ := mem_names_iff.mp hname
  rw [hforeign] at h
  cases h

/-! ### What a course tells of the members -/

/-- A member that was seen does not come again. -/
theorem Course.not_mem (h : record.Course Means seen acc ms seen' a) (hname : name ∈ record.names)
    (hseen : name ∈ seen) : name ∉ ms.map (·.1) := by
  induction h with
  | nil => simp
  | cons hstep _ ih =>
    rw [List.map_cons, List.mem_cons, not_or]
    cases hstep with
    | foreign hforeign => exact ⟨ne_of_foreign hname hforeign, ih hseen⟩
    | known _ hnew =>
      refine ⟨?_, ih (List.mem_cons_of_mem _ hseen)⟩
      rintro rfl
      exact hnew hseen

theorem Course.count_le (h : record.Course Means seen acc ms seen' a)
    (hname : name ∈ record.names) : (ms.map (·.1)).count name ≤ 1 := by
  induction h with
  | nil => simp
  | @cons _ _ m _ _ _ _ _ hstep hothers ih =>
    rw [List.map_cons]
    by_cases hm : m.1 = name
    · subst hm
      cases hstep with
      | foreign hforeign => exact absurd rfl (ne_of_foreign hname hforeign)
      | known => simp [List.count_eq_zero.mpr (hothers.not_mem hname List.mem_cons_self)]
    · rwa [List.count_cons_of_ne hm]

theorem Course.mem_seen_iff (h : record.Course Means seen acc ms seen' a)
    (hname : name ∈ record.names) : name ∈ seen' ↔ name ∈ seen ∨ name ∈ ms.map (·.1) := by
  induction h with
  | nil => simp
  | cons hstep _ ih =>
    cases hstep with
    | foreign hforeign => simpa [ne_of_foreign hname hforeign] using ih
    | known => rw [ih, List.mem_cons, List.map_cons, List.mem_cons, or_left_comm, or_assoc]

theorem Course.exists_means (h : record.Course Means seen acc ms seen' a)
    (hname : name ∈ record.names) {v : Datum} (hmem : (name, v) ∈ ms) :
    ∃ update, Means name v update := by
  induction h with
  | nil => cases hmem
  | cons hstep _ ih =>
    rcases List.mem_cons.mp hmem with rfl | hmem
    · cases hstep with
      | foreign hforeign => exact absurd rfl (ne_of_foreign hname hforeign)
      | known _ _ hmeans => exact ⟨_, hmeans⟩
    · exact ih hmem

/-- A setting that one member sets and the others keep. -/
theorem Course.sets (h : record.Course Means seen acc ms seen' a) (hname : name ∈ record.names)
    {get : σ → β} {R : Datum → β → Prop}
    (hset : ∀ v update acc, Means name v update → R v (get (update acc)))
    (hkeep : ∀ other v update acc, other ≠ name → Means other v update →
      get (update acc) = get acc) : Sets ms name R (get acc) (get a) := by
  induction h with
  | nil => exact ⟨by simp, fun _ => rfl⟩
  | @cons seen acc m _ acc₁ ms _ a hstep hothers ih =>
    by_cases hm : m.1 = name
    · subst hm
      cases hstep with
      | foreign hforeign => exact absurd rfl (ne_of_foreign hname hforeign)
      | known _ _ hmeans =>
        -- Nothing of that name comes later, so what it set stays.
        have hnone := hothers.not_mem hname List.mem_cons_self
        refine ⟨?_, fun h => absurd List.mem_cons_self h⟩
        intro w hw
        rcases List.mem_cons.mp hw with heq | hw
        · cases heq
          rw [ih.absent hnone]
          exact hset _ _ _ hmeans
        · exact absurd (List.mem_map_of_mem hw) hnone
    · have hacc : get acc₁ = get acc := by
        cases hstep with
        | foreign => rfl
        | known _ _ hmeans => exact hkeep _ _ _ _ hm hmeans
      rw [hacc] at ih
      refine ⟨?_, fun h => ih.absent fun hmem => h (List.mem_cons_of_mem _ hmem)⟩
      intro w hw
      rcases List.mem_cons.mp hw with rfl | hw
      · exact absurd rfl hm
      · exact ih.given w hw

/-- Members of which none that is known comes twice, and which all stand for something. -/
theorem exists_course (acc : σ) (honce : Once record.names ms)
    (hnew : ∀ name ∈ seen, name ∉ ms.map (·.1))
    (hmeans : ∀ name v, (name, v) ∈ ms → name ∈ record.names → ∃ update, Means name v update) :
    ∃ seen' a, record.Course Means seen acc ms seen' a := by
  induction ms generalizing seen acc with
  | nil => exact ⟨seen, acc, .nil⟩
  | cons m ms ih =>
    obtain ⟨name, v⟩ := m
    have honce' : Once record.names ms := by
      intro other hother
      have := honce other hother
      rw [List.map_cons, List.count_cons] at this
      omega
    have hmeans' : ∀ name v, (name, v) ∈ ms → name ∈ record.names →
        ∃ update, Means name v update :=
      fun other w hmem => hmeans other w (List.mem_cons_of_mem _ hmem)
    cases hmember : record.member? name with
    | none =>
      have hnew' : ∀ other ∈ seen, other ∉ ms.map (·.1) :=
        fun other hother hmem => hnew other hother (List.mem_cons_of_mem _ hmem)
      obtain ⟨seen', a, hcourse⟩ := ih acc honce' hnew' hmeans'
      exact ⟨seen', a, .cons (.foreign hmember) hcourse⟩
    | some member =>
      have hname := mem_names_iff.mpr ⟨member, hmember⟩
      obtain ⟨update, hupdate⟩ := hmeans name v List.mem_cons_self hname
      have hfresh : name ∉ seen := fun h => hnew name h List.mem_cons_self
      have hnew' : ∀ other ∈ name :: seen, other ∉ ms.map (·.1) := by
        intro other hother hmem
        rcases List.mem_cons.mp hother with rfl | hother
        · have := honce other hname
          have := List.count_pos_iff.mpr hmem
          rw [List.map_cons, List.count_cons_self] at *
          omega
        · exact hnew other hother (List.mem_cons_of_mem _ hmem)
      obtain ⟨seen', a, hcourse⟩ := ih (update acc) honce' hnew' hmeans'
      exact ⟨seen', a, .cons (.known hmember hfresh hupdate) hcourse⟩

/-! ### What makes an object acceptable -/

/-- An object is accepted exactly when no member comes twice, all that is known stands for
something, and all that is required is there. -/
theorem exists_finishes_iff : (∃ a, record.Finishes Means [] acc ms a) ↔
    Once record.names ms ∧
      (∀ name v, (name, v) ∈ ms → name ∈ record.names → ∃ update, Means name v update) ∧
      ∀ m ∈ record.members, m.required = true → m.name ∈ ms.map (·.1) := by
  constructor
  · rintro ⟨a, seen', hcourse, hcomplete⟩
    refine ⟨fun name hname => hcourse.count_le hname,
      fun name v hmem hname => hcourse.exists_means hname hmem, ?_⟩
    intro m hm hr
    have hname : m.name ∈ record.names := List.mem_map_of_mem hm
    simpa using (hcourse.mem_seen_iff hname).mp (hcomplete m hm hr)
  · rintro ⟨honce, hmeans, hrequired⟩
    obtain ⟨seen', a, hcourse⟩ := exists_course acc honce (by simp : ∀ name ∈ [], _) hmeans
    refine ⟨a, seen', hcourse, ?_⟩
    intro m hm hr
    have hname : m.name ∈ record.names := List.mem_map_of_mem hm
    exact (hcourse.mem_seen_iff hname).mpr (.inr (hrequired m hm hr))

end Record

/-! ### Settings -/

/-- One setting of a record: its name, what its values stand for, and the part of the record that it
is. -/
structure Setting (σ : Type) where
  name : String
  required : Bool
  Value : Type
  stands : Datum → Value → Prop
  get : σ → Value
  set : Value → σ → σ

namespace Setting

variable {σ : Type} {settings : List (Setting σ)} {record : Record σ} {absent a b : σ}
  {ms : List (String × Datum)}

/-- The settings of a record have each a name and a part of their own, and together they are all of
it. -/
structure Lawful (settings : List (Setting σ)) : Prop where
  names : ∀ f ∈ settings, ∀ g ∈ settings, f.name = g.name → f = g
  unique : ∀ f ∈ settings, ∀ v x y, f.stands v x → f.stands v y → x = y
  get_set : ∀ f ∈ settings, ∀ x a, f.get (f.set x a) = x
  get_other : ∀ f ∈ settings, ∀ g ∈ settings, g.name ≠ f.name → ∀ x a, f.get (g.set x a) = f.get a
  ext : ∀ a b, (∀ f ∈ settings, f.get a = f.get b) → a = b

/-- The member reads the values of the setting that the object has. -/
structure Describes (ms : List (String × Datum)) (f : Setting σ) (m : Member σ) : Prop where
  name : m.name = f.name
  required : m.required = f.required
  value : ∀ v, (f.name, v) ∈ ms →
    m.value.Reads v fun update => ∃ x, f.stands v x ∧ f.set x = update

/-- A member that sets what its reader makes of the value. -/
theorem Describes.of_reads {f : Setting σ} {reader : Reader f.Value}
    (h : ∀ v, (f.name, v) ∈ ms → reader.Reads v (f.stands v)) :
    Describes ms f ⟨f.name, f.required, reader.map f.set⟩ :=
  ⟨rfl, rfl, fun v hv => (h v hv).map f.set⟩

/-- What an object says of a record with such settings. -/
structure Tells (settings : List (Setting σ)) (absent : σ) (ms : List (String × Datum)) (a : σ) :
    Prop where
  once : Once (settings.map (·.name)) ms
  sets : ∀ f ∈ settings, Sets ms f.name f.stands (f.get absent) (f.get a)
  required : ∀ f ∈ settings, f.required = true → f.name ∈ ms.map (·.1)

/-- An object says something of a record with such settings. -/
structure Acceptable (settings : List (Setting σ)) (ms : List (String × Datum)) : Prop where
  once : Once (settings.map (·.name)) ms
  stands : ∀ f ∈ settings, ∀ v, (f.name, v) ∈ ms → ∃ x, f.stands v x
  required : ∀ f ∈ settings, f.required = true → f.name ∈ ms.map (·.1)

theorem Tells.acceptable (h : Tells settings absent ms a) : Acceptable settings ms where
  once := h.once
  stands f hf v hv := ⟨f.get a, (h.sets f hf).given v hv⟩
  required := h.required

theorem Tells.unique_of_lawful (laws : Lawful settings) (ha : Tells settings absent ms a)
    (hb : Tells settings absent ms b) : a = b :=
  laws.ext a b fun f hf => (ha.sets f hf).unique (laws.unique f hf) (hb.sets f hf)

/-- The change that the value of a member stands for. -/
def Means (settings : List (Setting σ)) (name : String) (v : Datum) (update : σ → σ) : Prop :=
  ∃ f ∈ settings, f.name = name ∧ ∃ x, f.stands v x ∧ f.set x = update

section

variable {members : List (Member σ)}

theorem map_name_eq (h : List.Forall₂ (Describes ms) settings members) :
    members.map (·.name) = settings.map (·.name) := by
  induction h with
  | nil => rfl
  | cons hf _ ih => rw [List.map_cons, List.map_cons, hf.name, ih]

theorem exists_setting (h : List.Forall₂ (Describes ms) settings members) {m : Member σ}
    (hm : m ∈ members) : ∃ f ∈ settings, Describes ms f m := by
  induction h with
  | nil => cases hm
  | cons hf _ ih =>
    rcases List.mem_cons.mp hm with rfl | hm
    · exact ⟨_, List.mem_cons_self, hf⟩
    · obtain ⟨f, hmem, hf⟩ := ih hm
      exact ⟨f, List.mem_cons_of_mem _ hmem, hf⟩

theorem exists_member (h : List.Forall₂ (Describes ms) settings members) {f : Setting σ}
    (hf : f ∈ settings) : ∃ m ∈ members, Describes ms f m := by
  induction h with
  | nil => cases hf
  | cons hm _ ih =>
    rcases List.mem_cons.mp hf with rfl | hf
    · exact ⟨_, List.mem_cons_self, hm⟩
    · obtain ⟨m, hmem, hm⟩ := ih hf
      exact ⟨m, List.mem_cons_of_mem _ hmem, hm⟩

end

section

variable (laws : Lawful settings)
  (describes : List.Forall₂ (Describes ms) settings record.members)

include laws describes

theorem readsMembers : record.ReadsMembers (Means settings) ms := by
  intro name v hv member hmember
  obtain ⟨hmem, rfl⟩ := Record.mem_names_of_member? hmember
  obtain ⟨f, hf, hdescribes⟩ := exists_setting describes hmem
  rw [hdescribes.name] at hv ⊢
  apply (hdescribes.value v hv).congr
  intro update
  constructor
  · intro h
    exact ⟨f, hf, rfl, h⟩
  · rintro ⟨g, hg, hname, h⟩
    obtain rfl := laws.names g hg f hf hname
    exact h

theorem exists_finishes_iff : (∃ a, record.Finishes (Means settings) [] absent ms a) ↔
    Acceptable settings ms := by
  rw [Record.exists_finishes_iff, Record.names, map_name_eq describes]
  constructor
  · rintro ⟨honce, hmeans, hrequired⟩
    refine ⟨honce, ?_, ?_⟩
    · intro f hf v hv
      obtain ⟨update, g, hg, hname, x, hx, -⟩ := hmeans f.name v hv (List.mem_map_of_mem hf)
      obtain rfl := laws.names g hg f hf hname
      exact ⟨x, hx⟩
    · intro f hf hr
      obtain ⟨m, hm, hdescribes⟩ := exists_member describes hf
      rw [← hdescribes.name]
      exact hrequired m hm (hdescribes.required.trans hr)
  · intro h
    refine ⟨h.once, ?_, ?_⟩
    · intro name v hv hname
      obtain ⟨f, hf, rfl⟩ := List.mem_map.mp hname
      obtain ⟨x, hx⟩ := h.stands f hf v hv
      exact ⟨f.set x, f, hf, rfl, x, hx, rfl⟩
    · intro m hm hr
      obtain ⟨f, hf, hdescribes⟩ := exists_setting describes hm
      rw [hdescribes.name]
      exact h.required f hf (hdescribes.required.symm.trans hr)

theorem tells_of_finishes (h : record.Finishes (Means settings) [] absent ms a) :
    Tells settings absent ms a := by
  have haccepted := (exists_finishes_iff laws describes).mp ⟨a, h⟩
  obtain ⟨seen', hcourse, -⟩ := h
  refine ⟨haccepted.once, ?_, haccepted.required⟩
  intro f hf
  have hname : f.name ∈ record.names := by
    rw [Record.names, map_name_eq describes]
    exact List.mem_map_of_mem hf
  apply hcourse.sets hname
  · rintro v update acc ⟨g, hg, hsame, x, hx, rfl⟩
    obtain rfl := laws.names g hg f hf hsame
    rwa [laws.get_set g hg]
  · rintro other v update acc hother ⟨g, hg, rfl, x, hx, rfl⟩
    exact laws.get_other f hf g hg hother x acc

/-- The members finish with a record exactly when the object says so. -/
theorem finishes_iff_tells :
    record.Finishes (Means settings) [] absent ms a ↔ Tells settings absent ms a := by
  constructor
  · exact tells_of_finishes laws describes
  · intro h
    -- Whatever they finish with, the object tells the same of it.
    obtain ⟨b, hb⟩ := (exists_finishes_iff laws describes).mpr h.acceptable
    obtain rfl := h.unique_of_lawful laws (tells_of_finishes laws describes hb)
    exact hb

end

section

variable {R : List (String × Datum) → σ → Prop} (laws : Lawful settings)
  (tells : ∀ ms a, Tells settings record.absent ms a ↔ R ms a)

include laws tells

/-- Records with settings are read from objects as these tell, and from no scalar. -/
theorem reads_madeOf (describes : ∀ ms, List.Forall₂ (Describes ms) settings record.members)
    {v : Datum} (hlist : ∀ vs, v ≠ .list vs) : record.reader.Reads v (Datum.MadeOf R v) := by
  have hreads := Record.reads_object hlist fun ms _ => readsMembers laws (describes ms)
  apply hreads.congr
  intro a
  constructor
  · rintro ⟨ms, rfl, h⟩
    exact .mk ((tells ms a).mp ((finishes_iff_tells laws (describes ms)).mp h))
  · rintro ⟨h⟩
    exact ⟨_, rfl, (finishes_iff_tells laws (describes _)).mpr ((tells _ a).mpr h)⟩

theorem madeOf_unique (v : Datum) (a b : σ) (ha : Datum.MadeOf R v a) (hb : Datum.MadeOf R v b) :
    a = b := by
  obtain ⟨ha⟩ := ha
  obtain ⟨hb⟩ := hb
  exact ((tells _ a).mpr ha).unique_of_lawful laws ((tells _ b).mpr hb)

end

end Setting

end SessionPool.Json
