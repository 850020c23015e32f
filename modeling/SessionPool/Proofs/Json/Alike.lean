import Mathlib.Data.List.Forall2
import SessionPool.Json.Record

/-!
# Records that are read alike

What a reader accepts does not depend on what it makes of it. Two records whose members have the
same names, are required alike and are read alike accept the same texts, refuse the others with the
same faults, and make related things of what they accept as long as the members keep the relation.
-/

namespace SessionPool.Json

variable {α α' β β' σ τ : Type}

/-! ### Results that agree -/

/-- The same fault, or related results. -/
inductive Agree (R : α → β → Prop) : Except Fault α → Except Fault β → Prop
  | fault (e : Fault) : Agree R (.error e) (.error e)
  | ok {a : α} {b : β} (h : R a b) : Agree R (.ok a) (.ok b)

namespace Agree

theorem refl {R : α → α → Prop} (h : ∀ a, R a a) (x : Except Fault α) : Agree R x x := by
  cases x with
  | error e => exact .fault e
  | ok a => exact .ok (h a)

theorem bind {R : α → β → Prop} {S : α' → β' → Prop} {x : Except Fault α} {y : Except Fault β}
    {f : α → Except Fault α'} {g : β → Except Fault β'} (h : Agree R x y)
    (hfg : ∀ a b, x = .ok a → R a b → Agree S (f a) (g b)) : Agree S (x >>= f) (y >>= g) := by
  cases h with
  | fault e => exact .fault e
  | ok h => exact hfg _ _ rfl h

theorem map {R : α → β → Prop} {S : α' → β' → Prop} {x : Except Fault α} {y : Except Fault β}
    {f : α → α'} {g : β → β'} (h : Agree R x y) (hfg : ∀ a b, R a b → S (f a) (g b)) :
    Agree S (x.map f) (y.map g) := by
  cases h with
  | fault e => exact .fault e
  | ok h => exact .ok (hfg _ _ h)

end Agree

/-- Related values, with the same text behind them. -/
def SameRest (R : α → β → Prop) (p : α × List Char) (q : β × List Char) : Prop :=
  R p.1 q.1 ∧ p.2 = q.2

namespace Reader

/-- Both readers take the same texts, and what they make of them is related. -/
def Alike (R : α → β → Prop) (reader : Reader α) (reader' : Reader β) : Prop :=
  ∀ s, Agree (SameRest R) (reader.run s) (reader'.run s)

namespace Alike

theorem refl (reader : Reader α) : reader.Alike Eq reader :=
  fun s => .refl (fun _ => ⟨rfl, rfl⟩) (reader.run s)

theorem map {R : α → β → Prop} {S : α' → β' → Prop} {reader : Reader α} {reader' : Reader β}
    {f : α → α'} {g : β → β'} (h : reader.Alike R reader') (hfg : ∀ a b, R a b → S (f a) (g b)) :
    (reader.map f).Alike S (reader'.map g) := by
  intro s
  apply (h s).map
  rintro ⟨a, rest⟩ ⟨b, _⟩ ⟨hab, rfl⟩
  exact ⟨hfg a b hab, rfl⟩

theorem optional {R : α → β → Prop} {reader : Reader α} {reader' : Reader β}
    (h : reader.Alike R reader') : reader.optional.Alike (Option.Rel R) reader'.optional := by
  intro s
  show Agree _ (readOptional reader s) (readOptional reader' s)
  unfold readOptional
  split
  · exact .map (.refl (fun _ => rfl) _) (by rintro _ rest rfl; exact ⟨.none, rfl⟩)
  · apply (h _).map
    rintro ⟨a, rest⟩ ⟨b, _⟩ ⟨hab, rfl⟩
    exact ⟨.some hab, rfl⟩

/-- What one reader makes of a text is a function of what the other one makes of it. -/
theorem parse {reader : Reader α} {reader' : Reader β} {f : β → α}
    (h : reader.Alike (fun a b => a = f b) reader') (text : String) :
    reader.parse text = (reader'.parse text).map f := by
  have hrun := h text.toList
  simp only [Reader.parse]
  generalize reader.run text.toList = x at hrun ⊢
  generalize reader'.run text.toList = y at hrun ⊢
  cases hrun with
  | fault e => rfl
  | @ok p q h =>
    obtain ⟨a, rest⟩ := p
    obtain ⟨b, rest'⟩ := q
    obtain ⟨hab, hrest⟩ := h
    dsimp only at hab hrest ⊢
    subst hab hrest
    split <;> rfl

end Alike

end Reader

/-! ### Members and records -/

/-- The members have the same name and are required alike, and their changes keep the relation. -/
structure Member.Alike (R : σ → τ → Prop) (m : Member σ) (m' : Member τ) : Prop where
  name : m.name = m'.name
  required : m.required = m'.required
  value : m.value.Alike (fun u v => ∀ a b, R a b → R (u a) (v b)) m'.value

namespace Member.Alike

variable {R : σ → τ → Prop} {name : String} {required : Bool} {f : α → σ → σ}

theorem intro {S : α → β → Prop} {reader : Reader α} {reader' : Reader β} {g : β → τ → τ}
    (h : reader.Alike S reader') (hfg : ∀ a b, S a b → ∀ s t, R s t → R (f a s) (g b t)) :
    Member.Alike R ⟨name, required, reader.map f⟩ ⟨name, required, reader'.map g⟩ where
  name := rfl
  required := rfl
  value := h.map hfg

/-- What is read is the same, but it changes different records. -/
theorem same {reader : Reader α} {g : α → τ → τ} (hfg : ∀ a s t, R s t → R (f a s) (g a t)) :
    Member.Alike R ⟨name, required, reader.map f⟩ ⟨name, required, reader.map g⟩ :=
  .intro (.refl reader) fun a _ heq => heq ▸ hfg a

end Member.Alike

namespace Record

/-- The records are called the same, start related, and have the same members in the same order. -/
structure Alike (R : σ → τ → Prop) (record : Record σ) (record' : Record τ) : Prop where
  name : record.name = record'.name
  absent : R record.absent record'.absent
  members : List.Forall₂ (Member.Alike R) record.members record'.members

namespace Alike

variable {R : σ → τ → Prop} {record : Record σ} {record' : Record τ}

/-- A search that goes by the name and by what is required finds members that are alike. -/
theorem find? {p : Member σ → Bool} {p' : Member τ → Bool} {ms : List (Member σ)}
    {ms' : List (Member τ)} (h : List.Forall₂ (Member.Alike R) ms ms')
    (hp : ∀ m m', Member.Alike R m m' → p m = p' m') :
    Option.Rel (Member.Alike R) (ms.find? p) (ms'.find? p') := by
  induction h with
  | nil => exact .none
  | @cons m m' ms ms' hm _ ih =>
    rw [List.find?_cons, List.find?_cons, ← hp m m' hm]
    cases p m with
    | true => exact .some hm
    | false => exact ih

theorem member? (h : record.Alike R record') (name : String) :
    Option.Rel (Member.Alike R) (record.member? name) (record'.member? name) := by
  apply find? h.members
  intro m m' hm
  rw [hm.name]

theorem missing? (h : record.Alike R record') (seen : List String) :
    Option.Rel (Member.Alike R) (record.missing? seen) (record'.missing? seen) := by
  apply find? h.members
  intro m m' hm
  rw [hm.name, hm.required]

/-- The same names have been seen, the same text is left, and the records so far are related. -/
def SameProgress (R : σ → τ → Prop) (p : List String × σ × List Char)
    (q : List String × τ × List Char) : Prop :=
  p.1 = q.1 ∧ R p.2.1 q.2.1 ∧ p.2.2 = q.2.2

theorem readMember (h : record.Alike R record') {a : σ} {b : τ} (hab : R a b) (name : String)
    (seen : List String) (s : List Char) :
    Agree (SameProgress R) (record.readMember name seen a s)
      (record'.readMember name seen b s) := by
  have hmember := h.member? name
  unfold Record.readMember
  generalize record.member? name = x at hmember
  generalize record'.member? name = y at hmember
  cases hmember with
  | none =>
    apply Agree.bind (.refl (fun _ => rfl) (skipColon s))
    rintro value _ - rfl
    apply Agree.bind (.refl (fun _ => rfl) (skipValue [] value))
    rintro rest _ - rfl
    exact .ok ⟨rfl, hab, rfl⟩
  | @some m m' hm =>
    dsimp only
    split
    · exact .fault _
    · apply Agree.bind (.refl (fun _ => rfl) (skipColon s))
      rintro value _ - rfl
      apply Agree.bind (hm.value value)
      rintro ⟨update, rest⟩ ⟨update', _⟩ - ⟨hupdate, rfl⟩
      exact .ok ⟨rfl, hupdate a b hab, rfl⟩

theorem finishObject (h : record.Alike R record') {a : σ} {b : τ} (hab : R a b)
    (seen : List String) (s : List Char) :
    Agree (SameRest R) (record.finishObject seen a s) (record'.finishObject seen b s) := by
  have hmissing := h.missing? seen
  unfold Record.finishObject
  generalize record.missing? seen = x at hmissing
  generalize record'.missing? seen = y at hmissing
  cases hmissing with
  | none => exact .ok ⟨hab, rfl⟩
  | some hm =>
    dsimp only
    rw [hm.name]
    exact .fault _

/-- By the length of the text: every member takes something off it. -/
theorem readMembers (h : record.Alike R record') {a : σ} {b : τ} (hab : R a b)
    (seen : List String) (s : List Char) :
    Agree (SameRest R) (record.readMembers seen a s) (record'.readMembers seen b s) := by
  induction hn : s.length using Nat.strongRecOn generalizing seen a b s with
  | _ n ih =>
    subst hn
    rw [readMembers_eq_bind, readMembers_eq_bind]
    apply Agree.bind (.refl (fun _ => rfl) (readName s))
    rintro ⟨name, value⟩ _ hname rfl
    apply Agree.bind (h.readMember hab name seen value)
    rintro ⟨seen, a, rest⟩ ⟨_, b, _⟩ hmember ⟨rfl, hab, rfl⟩
    apply Agree.bind (.refl (fun _ => rfl) (nextMember rest))
    rintro next _ hnext rfl
    cases next with
    | none => exact h.finishObject hab seen rest
    | some s' =>
      have := readName_shorter hname
      have := readMember_shorter hmember
      have := nextMember_le hnext
      exact ih s'.length (by omega) hab seen s' rfl

theorem readObject (h : record.Alike R record') (s : List Char) :
    Agree (SameRest R) (record.readObject s) (record'.readObject s) := by
  apply Agree.bind (.refl (fun _ => rfl) (firstMember s))
  rintro first _ - rfl
  cases first with
  | none => exact h.finishObject h.absent [] s
  | some s => exact h.readMembers h.absent [] s

theorem finishList {a : σ} {b : τ} (hab : R a b) (s : List Char) :
    Agree (SameRest R) (Record.finishList a s) (Record.finishList b s) := by
  unfold Record.finishList
  split
  · exact .fault _
  · exact .ok ⟨hab, rfl⟩
  · split <;> exact .fault _
  · exact .fault _

theorem readElements (h : record.Alike R record') {ms : List (Member σ)} {ms' : List (Member τ)}
    (hms : List.Forall₂ (Member.Alike R) ms ms') {a : σ} {b : τ} (hab : R a b) (count : Nat)
    (s : List Char) :
    Agree (SameRest R) (record.readElements count a s ms) (record'.readElements count b s ms') := by
  induction hms generalizing a b count s with
  | nil => exact finishList hab s
  | @cons m m' ms ms' hm _ ih =>
    unfold Record.readElements
    apply Agree.bind (.refl (fun _ => rfl) (nextElement (count == 0) s))
    rintro next _ - rfl
    cases next with
    | none =>
      dsimp only
      rw [← hm.required, ← h.name, ← h.members.length_eq]
      split
      · exact .fault _
      · exact ih hab (count + 1) s
    | some s =>
      apply Agree.bind (hm.value s)
      rintro ⟨update, rest⟩ ⟨update', _⟩ - ⟨hupdate, rfl⟩
      exact ih (hupdate a b hab) (count + 1) rest

theorem reader (h : record.Alike R record') : record.reader.Alike R record'.reader := by
  intro s
  show Agree _ (record.read s) (record'.read s)
  unfold Record.read
  split
  · exact h.readObject _
  · exact h.readElements h.members h.absent 0 _
  · rw [h.name]
    exact .fault _

end Alike

end Record

end SessionPool.Json
