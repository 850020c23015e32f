import SessionPool.Proofs.Script.Frames
import SessionPool.Proofs.Script.Loans

/-!
# Commands without leases

A command to a lease can be replaced by one to the marshal in it. The marshal of a lease is then
held under the name of the lease, it is used there, and at the end of the lease it is released or,
if it was taken out, just kept:

    lease l s ; … l … ; drop l   ~   acquire l s ; … l … ; release s l.

A command and its replacement take a state, and the same state without leases, to such a pair again,
and they come back with the same reply, put in other words.
-/

namespace SessionPool.Script

variable {φ μ ω χ α : Type}

/-- What a command comes back with, and what the one comes back with that replaces it. They differ
in how they are put, and for the end of a lease in what became of the release. -/
inductive SameReply : Command φ χ α → Reply φ μ → Reply φ μ → Prop
  | same (command : Command φ χ α) (reply : Reply φ μ) : SameReply command reply reply
  | missing (command : Command φ χ α) (kind kind' : Kind) :
      SameReply command (.missing kind) (.missing kind')
  | read (name : Name) (m : μ) (s : Session φ μ) :
      SameReply (.leaseInfo name) (.lease m s) (.deed false m m)
  | kept (as name : Name) (m : μ) : SameReply (.detach as name) (.marshal m) (.deed false m m)
  | accepted (name : Name) : SameReply (.dropLease name) .done .released
  | refused (name : Name) (e : Error) : SameReply (.dropLease name) .done (.failed e)

namespace Names

variable {names : Names} {name as : Name}

theorem get?_of_isLoan (h : names.isLoan name = true) :
    names.get? name = some (.loan (names.lender name)) := by
  rw [isLoan] at h
  rw [lender]
  cases hname : names.get? name with
  | none =>
    rw [hname] at h
    cases h
  | some owned =>
    rw [hname] at h
    cases owned with
    | loan handle => rfl
    | marshal => cases h

theorem not_loan (h : names.isLoan name = false) (handle : Name) :
    names.get? name ≠ some (.loan handle) := by
  intro hname
  rw [isLoan, hname] at h
  cases h

end Names

namespace State

variable {names : Names} {marshals : Named μ} {st st' : State φ μ ω}

/-! ### Names and marshals change -/

namespace Lent

theorem leases_eq_none (h : st.Lent names marshals) {name : Name}
    (free : names.isLoan name = false) : st.leases.get? name = none := by
  cases hlease : st.leases.get? name with
  | none => rfl
  | some lease =>
    obtain ⟨handle, -, hname, -⟩ := (h.loans name lease hlease).borrowed
    exact absurd hname (Names.not_loan free handle)

theorem marshals_eq_none (h : st.Lent names marshals) {name : Name}
    (loan : names.isLoan name = true) : st.marshals.get? name = none := by
  cases hm : st.marshals.get? name with
  | none => rfl
  | some m =>
    have hname := Names.get?_of_isLoan loan
    rw [h.owned name m hm] at hname
    cases hname

/-- What is under one name changes, and what is under the others stays. -/
theorem change (h : st.Lent names marshals) (name : Name) {leases : Named (Lease μ)}
    {held marshals' : Named μ} {names' : Names}
    (others : ∀ other, other ≠ name → names'.get? other = names.get? other ∧
      leases.get? other = st.leases.get? other ∧ held.get? other = st.marshals.get? other ∧
      marshals'.get? other = marshals.get? other)
    (proper : leases.Proper)
    (marshals_eq : marshals'.get? name = ((leases.get? name).bind (·.marshal)).or (held.get? name))
    (loan : ∀ lease, leases.get? name = some lease → st.IsLoan names' name lease)
    (owned : ∀ m, held.get? name = some m → names'.get? name = some .marshal) :
    { st with leases, marshals := held }.Lent names' marshals' := by
  refine ⟨fun other => ?_, fun other lease hlease => ?_, fun other m hm => ?_, proper⟩
  · by_cases heq : other = name
    · rwa [heq]
    · obtain ⟨-, hleases, hheld, hmarshals⟩ := others other heq
      show _ = ((leases.get? other).bind _).or (held.get? other)
      rw [hleases, hheld, hmarshals, h.marshals_eq other]
  · by_cases heq : other = name
    · subst heq
      have hloan := loan lease hlease
      exact ⟨hloan.named, hloan.full, hloan.borrowed, hloan.there⟩
    · obtain ⟨hnames, hleases, -⟩ := others other heq
      have hloan := h.loans other lease (hleases.symm.trans hlease)
      exact ⟨hloan.named, hloan.full, hnames ▸ hloan.borrowed, hloan.there⟩
  · by_cases heq : other = name
    · subst heq
      exact owned m hm
    · obtain ⟨hnames, -, hheld, -⟩ := others other heq
      exact hnames.trans (h.owned other m (hheld.symm.trans hm))

/-- A name that is not a lease's becomes a marshal's. -/
theorem nameMarshal (h : st.Lent names marshals) {as : Name} (hlease : st.leases.get? as = none) :
    st.Lent (names.insert as .marshal) marshals := by
  refine h.change as (fun other hother => ?_) h.proper (h.marshals_eq as) ?_ ?_
  · exact ⟨names.get?_insert_of_ne _ hother, rfl, rfl, rfl⟩
  · simp [hlease]
  · simp

theorem insertMarshal (h : st.Lent names marshals) {as : Name}
    (hlease : st.leases.get? as = none) (m : μ) :
    { st with marshals := st.marshals.insert as m }.Lent (names.insert as .marshal)
      (marshals.insert as m) := by
  refine h.change as (fun other hother => ?_) h.proper ?_ ?_ ?_
  · simp [Named.get?_insert_of_ne, hother]
  · simp [hlease]
  · simp [hlease]
  · simp

/-- What is done to a marshal. -/
theorem setMarshal (h : st.Lent names marshals) {name : Name}
    (hlease : st.leases.get? name = none) (owned : names.get? name = some .marshal) (m : μ) :
    { st with marshals := st.marshals.insert name m }.Lent names (marshals.insert name m) := by
  refine h.change name (fun other hother => ?_) h.proper ?_ ?_ (fun _ _ => owned)
  · simp [Named.get?_insert_of_ne, hother]
  · simp [hlease]
  · simp [hlease]

theorem eraseMarshal (h : st.Lent names marshals) {name : Name}
    (hlease : st.leases.get? name = none) :
    { st with marshals := st.marshals.erase name }.Lent names (marshals.erase name) := by
  refine h.change name (fun other hother => ?_) h.proper ?_ ?_ ?_
  · simp [Named.get?_erase_of_ne, hother]
  · simp [hlease]
  · simp [hlease]
  · simp

theorem eq_none_of_new (h : st.Lent names marshals) {name : Name} (new : names.get? name = none) :
    st.leases.get? name = none ∧ st.marshals.get? name = none := by
  refine ⟨h.leases_eq_none (by rw [Names.isLoan, new]), ?_⟩
  cases hm : st.marshals.get? name with
  | none => rfl
  | some m =>
    have hname := h.owned name m hm
    rw [new] at hname
    cases hname

/-- A name that stands for nothing becomes a lease's. -/
theorem nameLease (h : st.Lent names marshals) {as : Name} (new : names.get? as = none)
    (handle : Name) : st.Lent (names.insert as (.loan handle)) marshals := by
  obtain ⟨hlease, hm⟩ := h.eq_none_of_new new
  refine h.change as (fun other hother => ?_) h.proper (h.marshals_eq as) ?_ ?_
  · exact ⟨names.get?_insert_of_ne _ hother, rfl, rfl, rfl⟩
  · simp [hlease]
  · simp [hm]

theorem insertLease (h : st.Lent names marshals) {as handle : Name} (new : names.get? as = none)
    (hnamed : as ≠ none) (hhandle : handle ≠ none) {ref : SessionRef}
    (hheld : st.handles.get? handle = some ref) (hthere : (st.client.session? ref).isSome = true)
    (m : μ) :
    { st with leases := st.leases.insert as ⟨ref, some m⟩ }.Lent (names.insert as (.loan handle))
      (marshals.insert as m) := by
  obtain ⟨-, hm⟩ := h.eq_none_of_new new
  refine h.change as (fun other hother => ?_) (h.proper.insert as _) ?_ ?_ ?_
  · simp [Named.get?_insert_of_ne, hother]
  · simp
  · intro lease hlease
    rw [Named.get?_insert_self] at hlease
    obtain rfl := Option.some.inj hlease
    exact ⟨hnamed, rfl, ⟨handle, hhandle, Named.get?_insert_self _ _ _, hheld⟩, hthere⟩
  · simp [hm]

/-- What is done to the marshal of a lease. -/
theorem setLease (h : st.Lent names marshals) {name : Name} {lease : Lease μ}
    (hlease : st.leases.get? name = some lease) (m : μ) :
    { st with leases := st.leases.insert name { lease with marshal := some m } }.Lent names
      (marshals.insert name m) := by
  have loan := h.loans name lease hlease
  refine h.change name (fun other hother => ?_) (h.proper.insert name _) ?_ ?_ (h.owned name)
  · simp [Named.get?_insert_of_ne, hother]
  · simp
  · intro lease' hlease'
    rw [Named.get?_insert_self] at hlease'
    obtain rfl := Option.some.inj hlease'
    exact ⟨loan.named, rfl, loan.borrowed, loan.there⟩

/-- Looking at the marshal of a lease leaves it where it is. -/
theorem keep (h : st.Lent names marshals) {name : Name} {m : μ}
    (hm : marshals.get? name = some m) : st.Lent names (marshals.insert name m) := by
  refine ⟨fun other => ?_, h.loans, h.owned, h.proper⟩
  by_cases heq : other = name
  · rw [heq, Named.get?_insert_self, ← hm, h.marshals_eq name]
  · rw [Named.get?_insert_of_ne _ _ heq, h.marshals_eq other]

/-- The name of a lease that is not there stands for nothing any more. -/
theorem unname (h : st.Lent names marshals) {name : Name} (loan : names.isLoan name = true)
    (hlease : st.leases.get? name = none) : st.Lent (names.erase name) marshals := by
  have hm := h.marshals_eq_none loan
  refine h.change name (fun other hother => ?_) h.proper (h.marshals_eq name) ?_ ?_
  · exact ⟨names.get?_erase_of_ne hother, rfl, rfl, rfl⟩
  · simp [hlease]
  · simp [hm]

/-- A lease ends, and its name stands for nothing any more. -/
theorem eraseLease (h : st.Lent names marshals) {name : Name} (loan : names.isLoan name = true) :
    { st with leases := st.leases.erase name }.Lent (names.erase name) (marshals.erase name) := by
  have hm := h.marshals_eq_none loan
  refine h.change name (fun other hother => ?_) (h.proper.erase name) ?_ ?_ ?_
  · simp [Named.get?_erase_of_ne, hother]
  · simp [hm]
  · simp
  · simp [hm]

/-- The marshal of a lease is taken out and goes on under the same name. -/
theorem detach (h : st.Lent names marshals) (name : Name) (m : μ) :
    { st with leases := st.leases.erase name, marshals := st.marshals.insert name m }.Lent
      (names.insert name .marshal) (marshals.insert name m) := by
  refine h.change name (fun other hother => ?_) (h.proper.erase name) ?_ ?_ ?_
  · simp [Named.get?_erase_of_ne, Named.get?_insert_of_ne, hother]
  · simp
  · simp
  · simp

/-- A lease that a script names is there with its marshal and its session, or it was refused. -/
theorem loan_cases (h : st.Lent names marshals) {name : Name} (loan : names.isLoan name = true) :
    (st.leases.get? name = none ∧ marshals.get? name = none) ∨
    ∃ ref m s, st.leases.get? name = some ⟨ref, some m⟩ ∧ marshals.get? name = some m ∧
      st.client.session? ref = some s ∧ st.handles.get? (names.lender name) = some ref := by
  have hm := h.marshals_eq name
  rw [h.marshals_eq_none loan, Option.or_none] at hm
  cases hlease : st.leases.get? name with
  | none => exact .inl ⟨rfl, by rw [hm, hlease]; rfl⟩
  | some lease =>
    obtain ⟨-, hfull, ⟨handle, -, hname, hhandle⟩, hthere⟩ := h.loans name lease hlease
    obtain ⟨ref, marshal⟩ := lease
    obtain ⟨m, rfl⟩ := Option.isSome_iff_exists.mp hfull
    obtain ⟨s, hs⟩ := Option.isSome_iff_exists.mp hthere
    rw [Names.get?_of_isLoan loan] at hname
    obtain rfl := Owned.loan.inj (Option.some.inj hname)
    exact .inr ⟨ref, m, s, rfl, by rw [hm, hlease]; rfl, hs, hhandle⟩

end Lent

/-! ### The end of a step -/

section Steps

variable [Marshal μ ω]

theorem Twin.clearUnnamed (h : Twin names marshals st st') (kept : names.lends none = false) :
    Twin names (marshals.erase none) st.clearUnnamed st'.clearUnnamed := by
  have hdropped := (h.dropLease_none.dropHandle kept).dropRegistry none
  refine ⟨?_, ?_⟩
  · rw [State.clearUnnamed, hdropped.eq]
    rfl
  · exact (hdropped.lent.eraseMarshal hdropped.lent.not_none).congr rfl rfl rfl rfl

theorem TwinOutcome.settled {R : Reply φ μ → Reply φ μ → Prop} {o o' : Outcome φ μ ω}
    (h : TwinOutcome R names marshals o o') (kept : names.lends none = false) :
    Twin names (marshals.erase none) (reported o).clearUnnamed (reported o').clearUnnamed := by
  refine Twin.clearUnnamed ?_ kept
  rw [reported, reported, ← h.session]
  split
  · exact h.state.dropLease_none
  · next ref _ => exact (h.state.putHandle kept ref).dropLease_none

/-- Two results that are both complaints, and nothing happened, or outcomes that are alike once the
step is over. -/
inductive Replaced (names : Names) (command : Command φ χ α) (st st' : State φ μ ω) :
    Except Kind (Outcome φ μ ω) → Except Kind (Outcome φ μ ω) → Prop
  | error {marshals : Named μ} (kind kind' : Kind) (twin : Twin names marshals st st') :
      Replaced names command st st' (.error kind) (.error kind')
  | ok {marshals : Named μ} {o o' : Outcome φ μ ω} (reply : SameReply command o.reply o'.reply)
      (twin : Twin names marshals (reported o).clearUnnamed (reported o').clearUnnamed) :
      Replaced names command st st' (.ok o) (.ok o')

namespace Replaced

variable {command : Command φ χ α}

theorem bind {β : Type} (found : Except Kind β) {f g : β → Except Kind (Outcome φ μ ω)}
    (twin : Twin names marshals st st')
    (h : ∀ b, found = .ok b → Replaced names command st st' (f b) (g b)) :
    Replaced names command st st' (found >>= f) (found >>= g) := by
  cases found with
  | error kind => exact .error kind kind twin
  | ok b => exact h b rfl

theorem of_outcome {R : Reply φ μ → Reply φ μ → Prop} {o o' : Outcome φ μ ω}
    (hreply : ∀ r r', R r r' → SameReply command r r') (kept : names.lends none = false)
    (h : TwinOutcome R names marshals o o') : Replaced names command st st' (.ok o) (.ok o') :=
  .ok (hreply _ _ h.reply) (h.settled kept)

theorem of_eq {o o' : Outcome φ μ ω} (kept : names.lends none = false)
    (h : TwinOutcome Eq names marshals o o') : Replaced names command st st' (.ok o) (.ok o') := by
  refine of_outcome (fun r r' hr => ?_) kept h
  subst hr
  exact .same command r

theorem of_both {r r' : Except Kind (Outcome φ μ ω)} (kept : names.lends none = false)
    (twin : Twin names marshals st st') (h : Both (TwinOutcome Eq names marshals) r r') :
    Replaced names command st st' r r' := by
  cases h with
  | error kind => exact .error kind kind twin
  | ok h => exact of_eq kept h

end Replaced

end Steps

end State

end SessionPool.Script
