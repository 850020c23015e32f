import Mathlib.Data.List.Forall2
import SessionPool.Proofs.Custody.Turns

/-!
# Marshals of two kinds

Sessions know of their marshals only that these can be created, opened, reset and closed. So what
two kinds of marshals have in common, as long as all of this keeps it and attempts to open them end
alike, goes through every run of threads that do alike with both:

    st ~ st'  and  m ~ m'  and  same outcomes of opening  ⟹  st.move m ~ st'.move m'.

A run is then the same over the one kind as over the other: who gets a marshal and who gets none,
what is refused, and what is idle and counted as out in every session.
-/

namespace SessionPool

open Session (Call Result)
open Script (World Holder Deed)

/-! ### Lists -/

section Lists

variable {α β : Type} {R : α → β → Prop} {l : List α} {l' : List β}

theorem forall₂_getElem? (h : List.Forall₂ R l l') (i : Nat) : Option.Rel R l[i]? l'[i]? := by
  induction h generalizing i with
  | nil => exact .none
  | cons hab hrest ih =>
    cases i with
    | zero => exact .some hab
    | succ i => exact ih i

theorem forall₂_set (h : List.Forall₂ R l l') (i : Nat) {a : α} {b : β} (hab : R a b) :
    List.Forall₂ R (l.set i a) (l'.set i b) := by
  induction h generalizing i with
  | nil => exact .nil
  | cons hfirst hrest ih =>
    cases i with
    | zero => exact .cons hab hrest
    | succ i => exact .cons hfirst (ih i)

theorem forall₂_eraseIdx (h : List.Forall₂ R l l') (i : Nat) :
    List.Forall₂ R (l.eraseIdx i) (l'.eraseIdx i) := by
  induction h generalizing i with
  | nil => exact .nil
  | cons hfirst hrest ih =>
    cases i with
    | zero => exact hrest
    | succ i => exact .cons hfirst (ih i)

theorem forall₂_filter (h : List.Forall₂ R l l') {p : α → Bool} {q : β → Bool}
    (hpq : ∀ a b, R a b → p a = q b) : List.Forall₂ R (l.filter p) (l'.filter q) :=
  List.rel_filter (fun a b hab => by simp only [hpq a b hab]) h

theorem forall₂_any (h : List.Forall₂ R l l') {p : α → Bool} {q : β → Bool}
    (hpq : ∀ a b, R a b → p a = q b) : l.any p = l'.any q := by
  induction h with
  | nil => rfl
  | cons hab hrest ih => rw [List.any_cons, List.any_cons, hpq _ _ hab, ih]

end Lists

/-! ### What two kinds have in common -/

/-- A likeness between two kinds of marshals: between where they come from, themselves, their worlds
and what is done to worlds and marshals from outside. Everything that sessions and holders do keeps
it, as long as attempts to open a marshal end alike. -/
structure Likeness (φ μ ω χ α φ' μ' ω' χ' α' : Type) [Marshal μ ω] [Source φ μ ω] [World ω χ]
    [Holder μ α] [Marshal μ' ω'] [Source φ' μ' ω'] [World ω' χ'] [Holder μ' α'] where
  factory : φ → φ' → Prop
  marshal : μ → μ' → Prop
  world : ω → ω' → Prop
  change : χ → χ' → Prop
  act : α → α' → Prop
  create {f : φ} {f' : φ'} {w : ω} {w' : ω'} (hf : factory f f') (hw : world w w') :
    marshal (Source.create f w).1 (Source.create f' w').1 ∧
      world (Source.create f w).2 (Source.create f' w').2
  dial {m : μ} {m' : μ'} {w : ω} {w' : ω'} (hm : marshal m m') (hw : world w w') (host : String)
    (port : UInt16) (same : (Marshal.dial m host port w).1 = (Marshal.dial m' host port w').1) :
    marshal (Marshal.dial m host port w).2.1 (Marshal.dial m' host port w').2.1 ∧
      world (Marshal.dial m host port w).2.2 (Marshal.dial m' host port w').2.2
  reset {m : μ} {m' : μ'} {w : ω} {w' : ω'} (hm : marshal m m') (hw : world w w') :
    marshal (Marshal.reset m w).1 (Marshal.reset m' w').1 ∧
      world (Marshal.reset m w).2 (Marshal.reset m' w').2
  close {m : μ} {m' : μ'} {w : ω} {w' : ω'} (hm : marshal m m') (hw : world w w') :
    marshal (Marshal.close m w).1 (Marshal.close m' w').1 ∧
      world (Marshal.close m w).2 (Marshal.close m' w').2
  changed {c : χ} {c' : χ'} {w : ω} {w' : ω'} (hc : change c c') (hw : world w w') :
    world (World.change c w) (World.change c' w')
  acted {a : α} {a' : α'} {m : μ} {m' : μ'} (ha : act a a') (hm : marshal m m') :
    marshal (Holder.act a m) (Holder.act a' m')

/-! ### What is alike under a likeness of marshals -/

section Relations

variable {φ μ φ' μ' : Type}

/-- Sessions that differ in nothing but in what makes their marshals and in these. -/
structure Session.Alike (F : φ → φ' → Prop) (R : μ → μ' → Prop) (s : Session φ μ)
    (s' : Session φ' μ') : Prop where
  localId : s.localId = s'.localId
  remoteId : s.remoteId = s'.remoteId
  domain : s.domain = s'.domain
  factory : F s.factory s'.factory
  idle : List.Forall₂ R s.pool.idle s'.pool.idle
  outstanding : s.pool.outstanding = s'.pool.outstanding
  closed : s.pool.closed = s'.pool.closed

/-- Calls that do the same next, to marshals that are alike. -/
inductive Session.Call.Alike (R : μ → μ' → Prop) : Call μ → Call μ' → Prop
  | acquire : Alike R .acquire .acquire
  | create : Alike R .create .create
  | dial {m : μ} {m' : μ'} (h : R m m') : Alike R (.dial m) (.dial m')
  | settle {m : μ} {m' : μ'} (h : R m m') (ok : Bool) : Alike R (.settle m ok) (.settle m' ok)
  | release {m : μ} {m' : μ'} (h : R m m') : Alike R (.release m) (.release m')
  | put {m : μ} {m' : μ'} (h : R m m') : Alike R (.put m) (.put m')
  | discard {m : μ} {m' : μ'} (h : R m m') : Alike R (.discard m) (.discard m')
  | close : Alike R .close .close
  | pooled : Alike R .pooled .pooled
  | isClosed : Alike R .isClosed .isClosed

/-- The same results, but for the marshals in them, which are alike. -/
inductive Session.Result.Alike (R : μ → μ' → Prop) : Result μ → Result μ' → Prop
  | acquired {m : Option μ} {m' : Option μ'} (h : Option.Rel R m m') :
      Alike R (.acquired m) (.acquired m')
  | released (refusal : Option Error) : Alike R (.released refusal) (.released refusal)
  | closed (count : Nat) : Alike R (.closed count) (.closed count)
  | pooled (count : Nat) : Alike R (.pooled count) (.pooled count)
  | isClosed (closed : Bool) : Alike R (.isClosed closed) (.isClosed closed)

structure Pending.Alike (R : μ → μ' → Prop) (p : Pending μ) (p' : Pending μ') : Prop where
  place : p.place = p'.place
  started : Call.Alike R p.started p'.started
  next : Call.Alike R p.next p'.next

structure Finished.Alike (R : μ → μ' → Prop) (back : Finished μ) (back' : Finished μ') : Prop where
  thread : back.thread = back'.thread
  place : back.place = back'.place
  call : Call.Alike R back.call back'.call
  result : Result.Alike R back.result back'.result

structure Holding.Alike (R : μ → μ' → Prop) (h : Holding μ) (h' : Holding μ') : Prop where
  owner : h.owner = h'.owner
  marshal : R h.marshal h'.marshal
  origin : h.origin = h'.origin
  leased : h.leased = h'.leased

/-- What holders do alike. They leave it to the sessions to open marshals. -/
inductive Script.Deed.Alike {α α' : Type} (A : α → α' → Prop) : Deed α → Deed α' → Prop
  | look : Alike A .look .look
  | reset : Alike A .reset .reset
  | close : Alike A .close .close
  | act {a : α} {a' : α'} (h : A a a') : Alike A (.act a) (.act a')

/-- Moves that are alike: the same ones, but for what is done to the world and by holders to their
marshals. They bring in no marshal from elsewhere. -/
inductive Custody.Move.Alike {χ χ' α α' : Type} (C : χ → χ' → Prop) (A : α → α' → Prop) :
    Move μ χ α → Move μ' χ' α' → Prop
  | request (t : Thread) (place : Place) (r : Request) :
      Alike C A (.request t place r) (.request t place r)
  | release (t : Thread) (place : Place) (i : Nat) :
      Alike C A (.release t place i) (.release t place i)
  | endLease (t : Thread) (i : Nat) : Alike C A (.endLease t i) (.endLease t i)
  | detach (t : Thread) (i : Nat) : Alike C A (.detach t i) (.detach t i)
  | drop (t : Thread) (i : Nat) : Alike C A (.drop t i) (.drop t i)
  | pass (t : Thread) (i : Nat) (receiver : Thread) :
      Alike C A (.pass t i receiver) (.pass t i receiver)
  | deed (t : Thread) (i : Nat) {d : Deed α} {d' : Deed α'} (h : Deed.Alike A d d') :
      Alike C A (.deed t i d) (.deed t i d')
  | change {c : χ} {c' : χ'} (h : C c c') : Alike C A (.change c) (.change c')
  | dropSession (t : Thread) (place : Place) :
      Alike C A (.dropSession t place) (.dropSession t place)
  | advance (t : Thread) : Alike C A (.advance t) (.advance t)

end Relations

variable {φ μ ω χ α φ' μ' ω' χ' α' : Type} [Marshal μ ω] [Source φ μ ω] [World ω χ] [Holder μ α]
  [Marshal μ' ω'] [Source φ' μ' ω'] [World ω' χ'] [Holder μ' α']

namespace Likeness

variable (L : Likeness φ μ ω χ α φ' μ' ω' χ' α')

/-- Calls that are alike, and so are the sessions and the world that they are made in. -/
structure CallsAlike (calls : Interleaving φ μ ω) (calls' : Interleaving φ' μ' ω') : Prop where
  world : L.world calls.world calls'.world
  sessions : List.Forall₂ (Session.Alike L.factory L.marshal) calls.sessions calls'.sessions
  pending : List.Forall₂ (fun entry entry' => entry.1 = entry'.1 ∧
    Pending.Alike L.marshal entry.2 entry'.2) calls.pending calls'.pending
  finished : List.Forall₂ (Finished.Alike L.marshal) calls.finished calls'.finished

/-- States that are alike everywhere. -/
structure Alike (st : Custody φ μ ω) (st' : Custody φ' μ' ω') : Prop where
  calls : L.CallsAlike st.calls st'.calls
  leasing : st.leasing = st'.leasing
  holdings : List.Forall₂ (Holding.Alike L.marshal) st.holdings st'.holdings
  dropped : List.Forall₂ (Holding.Alike L.marshal) st.dropped st'.dropped
  gone : st.gone = st'.gone

/-- Turns in which threads do the same. -/
structure TurnAlike (turn : Turn φ μ ω) (turn' : Turn φ' μ' ω') : Prop where
  thread : turn.thread = turn'.thread
  place : turn.place = turn'.place
  started : Call.Alike L.marshal turn.started turn'.started
  call : Call.Alike L.marshal turn.call turn'.call
  session : Session.Alike L.factory L.marshal turn.session turn'.session
  world : L.world turn.world turn'.world

end Likeness

/-! ### Steps -/

/-- How an attempt to open a marshal has ended, if a step made one. -/
def Session.dialled? {μ : Type} : Call μ ⊕ Result μ → Option Bool
  | .inl (.settle _ ok) => some ok
  | _ => none

/-- How the attempt to open a marshal has ended that was made in a turn, if one was. -/
def Turn.dialled? (turn : Turn φ μ ω) : Option Bool := Session.dialled? turn.outcome.1

theorem Turn.dialled?_eq (turn : Turn φ μ ω) :
    turn.dialled? = match turn.call with
      | .dial m => some
        (Marshal.dial m turn.session.domain.host turn.session.domain.port turn.world).1
      | _ => none := by
  have hstep := turn.stepped
  unfold dialled?
  generalize turn.outcome = out at hstep ⊢
  generalize turn.call = call at hstep ⊢
  cases hstep <;> rfl

/-- How the attempts to open a marshal have ended, one after the other. -/
def Turn.dials (ts : List (Turn φ μ ω)) : List Bool := ts.filterMap Turn.dialled?

namespace Likeness

variable {L : Likeness φ μ ω χ α φ' μ' ω' χ' α'}

/-- What comes out of steps that are alike. -/
structure OutAlike (L : Likeness φ μ ω χ α φ' μ' ω' χ' α')
    (out : (Call μ ⊕ Result μ) × Session φ μ × ω)
    (out' : (Call μ' ⊕ Result μ') × Session φ' μ' × ω') : Prop where
  answer : Sum.LiftRel (Call.Alike L.marshal) (Result.Alike L.marshal) out.1 out'.1
  session : Session.Alike L.factory L.marshal out.2.1 out'.2.1
  world : L.world out.2.2 out'.2.2

theorem closeEach {ms : List μ} {ms' : List μ'} (hms : List.Forall₂ L.marshal ms ms') {w : ω}
    {w' : ω'} (hw : L.world w w') :
    L.world (SessionPool.closeEach ms w) (SessionPool.closeEach ms' w') := by
  induction hms generalizing w w' with
  | nil => exact hw
  | cons hm hms ih => exact ih (L.close hm hw).2

variable {s : Session φ μ} {s' : Session φ' μ'} {w : ω} {w' : ω'}

theorem step (hs : Session.Alike L.factory L.marshal s s') (hw : L.world w w') {c : Call μ}
    {c' : Call μ'} (hc : Call.Alike L.marshal c c')
    (same : Session.dialled? (c.step s w).1 = Session.dialled? (c'.step s' w').1) :
    L.OutAlike (c.step s w) (c'.step s' w') := by
  have hidle := hs.idle
  cases hc with
  | acquire =>
    simp only [Call.step, Pool.take]
    -- Both find a marshal, or both find none.
    generalize hi : s.pool.idle = idle at hidle
    generalize hi' : s'.pool.idle = idle' at hidle
    cases hidle with
    | nil =>
      exact ⟨.inl .create, { hs with idle := .nil, outstanding := congrArg (· + 1) hs.outstanding },
        hw⟩
    | cons hm hrest =>
      obtain ⟨hreset, hworld⟩ := L.reset hm hw
      exact ⟨.inr (.acquired (.some hreset)),
        { hs with idle := hrest, outstanding := congrArg (· + 1) hs.outstanding }, hworld⟩
  | create =>
    obtain ⟨hm, hworld⟩ := L.create hs.factory hw
    exact ⟨.inl (.dial hm), hs, hworld⟩
  | dial hm =>
    simp only [Call.step, Session.dialled?, hs.domain] at same ⊢
    obtain ⟨hdialled, hworld⟩ := L.dial hm hw _ _ (Option.some.inj same)
    rw [Option.some.inj same]
    exact ⟨.inl (.settle hdialled _), hs, hworld⟩
  | settle hm ok =>
    cases ok with
    | true =>
      obtain ⟨hreset, hworld⟩ := L.reset hm hw
      exact ⟨.inr (.acquired (.some hreset)), hs, hworld⟩
    | false =>
      exact ⟨.inr (.acquired .none), { hs with outstanding := congrArg (· - 1) hs.outstanding }, hw⟩
  | release hm =>
    obtain ⟨hreset, hworld⟩ := L.reset hm hw
    exact ⟨.inl (.put hreset), hs, hworld⟩
  | put hm =>
    have hless := congrArg (· - 1) hs.outstanding
    simp only [Call.step, Pool.put, hs.closed]
    by_cases hclosed : s'.pool.closed = true
    · rw [if_pos hclosed, if_pos hclosed]
      exact ⟨.inl (.discard hm), { hs with outstanding := hless }, hw⟩
    · rw [if_neg hclosed, if_neg hclosed]
      exact ⟨.inr (.released none), { hs with idle := .cons hm hs.idle, outstanding := hless }, hw⟩
  | discard hm =>
    simp only [Call.step, hs.localId]
    exact ⟨.inr (.released _), hs, (L.close hm hw).2⟩
  | close =>
    simp only [Call.step, Pool.drain, hs.closed]
    by_cases hclosed : s'.pool.closed = true
    · rw [if_pos hclosed, if_pos hclosed]
      exact ⟨.inr (.closed _), hs, hw⟩
    · rw [if_neg hclosed, if_neg hclosed, hs.idle.length_eq]
      exact ⟨.inr (.closed _), { hs with idle := .nil, closed := rfl }, closeEach hs.idle hw⟩
  | pooled =>
    simp only [Call.step, Session.pooled, hs.idle.length_eq]
    exact ⟨.inr (.pooled _), hs, hw⟩
  | isClosed =>
    simp only [Call.step, Session.isClosed, hs.closed]
    exact ⟨.inr (.isClosed _), hs, hw⟩

/-- Of two turns that are alike, both attempt to open a marshal or none does. -/
theorem TurnAlike.isSome_dialled? {turn : Turn φ μ ω} {turn' : Turn φ' μ' ω'}
    (h : L.TurnAlike turn turn') : turn.dialled?.isSome = turn'.dialled?.isSome := by
  have hcall := h.call
  rw [Turn.dialled?_eq, Turn.dialled?_eq]
  generalize turn.call = call at hcall ⊢
  generalize turn'.call = call' at hcall ⊢
  cases hcall <;> rfl

/-! ### Calls under way -/

namespace CallsAlike

variable {calls : Interleaving φ μ ω} {calls' : Interleaving φ' μ' ω'}

theorem pending? (h : L.CallsAlike calls calls') (t : Thread) :
    Option.Rel (Pending.Alike L.marshal) (calls.pending? t) (calls'.pending? t) := by
  have hpending := h.pending
  rw [Interleaving.pending?, Interleaving.pending?]
  generalize calls.pending = entries at hpending ⊢
  generalize calls'.pending = entries' at hpending ⊢
  induction hpending with
  | nil => exact .none
  | @cons entry entry' _ _ hentry _ ih =>
    obtain ⟨hthread, hpending⟩ := hentry
    obtain ⟨u, p⟩ := entry
    obtain ⟨u', p'⟩ := entry'
    obtain rfl : u = u' := hthread
    rw [List.lookup_cons, List.lookup_cons]
    cases t == u with
    | true => exact .some hpending
    | false => exact ih

theorem session? (h : L.CallsAlike calls calls') (place : Place) :
    Option.Rel (Session.Alike L.factory L.marshal) calls.sessions[place]? calls'.sessions[place]? :=
  forall₂_getElem? h.sessions place

theorem start (h : L.CallsAlike calls calls') (t : Thread) (place : Place) {c : Call μ}
    {c' : Call μ'} (hc : Call.Alike L.marshal c c') :
    L.CallsAlike (calls.move (.start t place c)) (calls'.move (.start t place c')) := by
  have hp := h.pending? t
  have hs := h.session? place
  rw [Interleaving.move, Interleaving.move]
  generalize calls.pending? t = p at hp
  generalize calls'.pending? t = p' at hp
  generalize calls.sessions[place]? = s at hs
  generalize calls'.sessions[place]? = s' at hs
  cases hp with
  | none =>
    cases hs with
    | none => exact h
    | some hs => exact { h with pending := .cons ⟨rfl, rfl, hc, hc⟩ h.pending }
  | some hp => exact h

theorem advance (h : L.CallsAlike calls calls') (t : Thread) {p : Pending μ} {p' : Pending μ'}
    (hp : Pending.Alike L.marshal p p')
    (hout : L.OutAlike (calls.outcome p s) (calls'.outcome p' s')) :
    L.CallsAlike (calls.advance t p s) (calls'.advance t p' s') := by
  have hothers : List.Forall₂ (fun entry entry' => entry.1 = entry'.1 ∧
      Pending.Alike L.marshal entry.2 entry'.2) (calls.others t) (calls'.others t) :=
    forall₂_filter h.pending fun _ _ hentry => by rw [hentry.1]
  have hanswer := hout.answer
  generalize hnext : (calls.outcome p s).1 = next at hanswer
  generalize hnext' : (calls'.outcome p' s').1 = next' at hanswer
  refine ⟨?_, ?_, ?_, ?_⟩
  · rw [Interleaving.advance_world, Interleaving.advance_world]
    exact hout.world
  · rw [Interleaving.advance_sessions, Interleaving.advance_sessions, hp.place]
    exact forall₂_set h.sessions _ hout.session
  · rw [Interleaving.advance_pending, Interleaving.advance_pending, hnext, hnext']
    cases hanswer with
    | inl hgoesOn => exact .cons ⟨rfl, hp.place, hp.started, hgoesOn⟩ hothers
    | inr hresult => exact hothers
  · rw [Interleaving.advance_finished, Interleaving.advance_finished, hnext, hnext']
    cases hanswer with
    | inl hgoesOn => exact h.finished
    | inr hresult => exact .cons ⟨rfl, hp.place, hp.started, hresult⟩ h.finished

end CallsAlike

/-! ### Moves -/

namespace Alike

variable {st : Custody φ μ ω} {st' : Custody φ' μ' ω'}

theorem canCall (h : L.Alike st st') (t : Thread) (place : Place) :
    st.canCall t place = st'.canCall t place := by
  have hp := h.calls.pending? t
  have hs := h.calls.session? place
  rw [Custody.canCall, Custody.canCall, h.gone]
  generalize st.calls.pending? t = p at hp ⊢
  generalize st'.calls.pending? t = p' at hp ⊢
  generalize st.calls.sessions[place]? = s at hs ⊢
  generalize st'.calls.sessions[place]? = s' at hs ⊢
  cases hp <;> cases hs <;> rfl

theorem inHand? (h : L.Alike st st') (t : Thread) (i : Nat) :
    Option.Rel (Holding.Alike L.marshal) (st.inHand? t i) (st'.inHand? t i) := by
  have hp := h.calls.pending? t
  have hh := forall₂_getElem? h.holdings i
  rw [Custody.inHand?, Custody.inHand?]
  generalize st.calls.pending? t = p at hp ⊢
  generalize st'.calls.pending? t = p' at hp ⊢
  generalize st.holdings[i]? = held at hh ⊢
  generalize st'.holdings[i]? = held' at hh ⊢
  cases hp with
  | some hp => exact .none
  | none =>
    cases hh with
    | none => exact .none
    | @some held held' hh =>
      rw [if_pos (by rfl), if_pos (by rfl), Option.filter_some, Option.filter_some, hh.owner]
      split
      · exact .some hh
      · exact .none

theorem isBorrowed (h : L.Alike st st') (place : Place) :
    st.isBorrowed place = st'.isBorrowed place := by
  have hcalls : st.calls.pending.any (·.2.place == place) =
      st'.calls.pending.any (·.2.place == place) :=
    forall₂_any h.calls.pending fun _ _ hentry => by rw [hentry.2.place]
  have hleases : (st.holdings.any fun held => held.leased && held.origin == some place) =
      st'.holdings.any fun held => held.leased && held.origin == some place :=
    forall₂_any h.holdings fun _ _ hheld => by rw [hheld.leased, hheld.origin]
  rw [Custody.isBorrowed, Custody.isBorrowed, hcalls, hleases]

theorem start (h : L.Alike st st') (t : Thread) (place : Place) {c : Call μ} {c' : Call μ'}
    (hc : Call.Alike L.marshal c c') : L.Alike (st.start t place c) (st'.start t place c') :=
  { h with calls := h.calls.start t place hc }

theorem giveBack (h : L.Alike st st') (t : Thread) (place : Place) (i : Nat) {held : Holding μ}
    {held' : Holding μ'} (hheld : Holding.Alike L.marshal held held') :
    L.Alike (st.giveBack t place i held) (st'.giveBack t place i held') :=
  { h.start t place (.release hheld.marshal) with holdings := forall₂_eraseIdx h.holdings i }

theorem receive (h : L.Alike st st') {back : Finished μ} {back' : Finished μ'}
    (hback : Finished.Alike L.marshal back back') :
    L.Alike (st.receive back) (st'.receive back') := by
  have hleasing :
      st.leasing.filter (· != back.thread) = st'.leasing.filter (· != back'.thread) := by
    rw [h.leasing, hback.thread]
  have hholdings : List.Forall₂ (Holding.Alike L.marshal) (st.receive back).holdings
      (st'.receive back').holdings := by
    have hresult := hback.result
    rw [Custody.receive, Custody.receive]
    dsimp only
    generalize back.result = result at hresult ⊢
    generalize back'.result = result' at hresult ⊢
    cases hresult with
    | acquired hm =>
      cases hm with
      | none => exact h.holdings
      | some hm =>
        exact .cons ⟨hback.thread, hm, congrArg some hback.place, by rw [h.leasing, hback.thread]⟩
          h.holdings
    | _ => exact h.holdings
  exact { h with leasing := hleasing, holdings := hholdings }

/-- The turns that moves let threads take are alike. -/
theorem turn? (h : L.Alike st st') {m : Custody.Move μ χ α} {m' : Custody.Move μ' χ' α'}
    (hm : Custody.Move.Alike L.change L.act m m') :
    Option.Rel L.TurnAlike (st.turn? m) (st'.turn? m') := by
  cases hm with
  | advance t =>
    have hp := h.calls.pending? t
    simp only [Custody.turn?]
    generalize st.calls.pending? t = p at hp ⊢
    generalize st'.calls.pending? t = p' at hp ⊢
    cases hp with
    | none => exact .none
    | @some p p' hp =>
      have hs := h.calls.session? p'.place
      dsimp only
      rw [hp.place]
      generalize st.calls.sessions[p'.place]? = s at hs ⊢
      generalize st'.calls.sessions[p'.place]? = s' at hs ⊢
      cases hs with
      | none => exact .none
      | some hs => exact .some ⟨rfl, rfl, hp.started, hp.next, hs, h.calls.world⟩
  | _ => exact .none

theorem advance (h : L.Alike st st') (t : Thread)
    (same : ∀ turn turn', st.turn? (.advance t : Custody.Move μ χ α) = some turn →
      st'.turn? (.advance t : Custody.Move μ' χ' α') = some turn' →
      turn.dialled? = turn'.dialled?) : L.Alike (st.advance t) (st'.advance t) := by
  have hpending := h.calls.pending? t
  generalize hp : st.calls.pending? t = p at hpending
  generalize hp' : st'.calls.pending? t = p' at hpending
  cases hpending with
  | none => rwa [Custody.advance_of_not_pending hp, Custody.advance_of_not_pending hp']
  | @some p p' hlike =>
    have hsession := h.calls.session? p.place
    generalize hs : st.calls.sessions[p.place]? = s at hsession
    rw [hlike.place] at hsession
    generalize hs' : st'.calls.sessions[p'.place]? = s' at hsession
    cases hsession with
    | none => rwa [Custody.advance_of_no_session hp hs, Custody.advance_of_no_session hp' hs']
    | @some s s' hsession =>
      have hdials := same ⟨t, p.place, p.started, p.next, s, st.calls.world⟩
        ⟨t, p'.place, p'.started, p'.next, s', st'.calls.world⟩
        (by simp only [Custody.turn?, hp, hs]) (by simp only [Custody.turn?, hp', hs'])
      have hcalls : L.CallsAlike (st.calls.move (.advance t)) (st'.calls.move (.advance t)) := by
        rw [Interleaving.move_advance hp hs, Interleaving.move_advance hp' hs']
        exact h.calls.advance t hlike (step hsession h.calls.world hlike.next hdials)
      have hafter := hcalls.pending? t
      have hback := forall₂_getElem? hcalls.finished 0
      rw [← List.head?_eq_getElem?, ← List.head?_eq_getElem?] at hback
      have hmoved : L.Alike { st with calls := st.calls.move (.advance t) }
          { st' with calls := st'.calls.move (.advance t) } := { h with calls := hcalls }
      simp only [Custody.advance, hp, hp']
      -- Either both calls go on, or both are over and have come back last.
      generalize (st.calls.move (.advance t)).pending? t = next at hafter ⊢
      generalize (st'.calls.move (.advance t)).pending? t = next' at hafter ⊢
      generalize (st.calls.move (.advance t)).finished.head? = back at hback ⊢
      generalize (st'.calls.move (.advance t)).finished.head? = back' at hback ⊢
      cases hafter with
      | some hafter => cases hback <;> exact hmoved
      | none =>
        cases hback with
        | none => exact hmoved
        | some hback => exact hmoved.receive hback

/-- What is done with something in a thread's hands is alike, or the thread has no such thing. -/
theorem withHeld (h : L.Alike st st') (t : Thread) (i : Nat) {f : Holding μ → Custody φ μ ω}
    {f' : Holding μ' → Custody φ' μ' ω'}
    (hf : ∀ held held', Holding.Alike L.marshal held held' → L.Alike (f held) (f' held')) :
    L.Alike (match st.inHand? t i with | some held => f held | none => st)
      (match st'.inHand? t i with | some held => f' held | none => st') := by
  have hheld := h.inHand? t i
  generalize st.inHand? t i = held at hheld ⊢
  generalize st'.inHand? t i = held' at hheld ⊢
  cases hheld with
  | none => exact h
  | some hheld => exact hf _ _ hheld

theorem deed (h : L.Alike st st') (t : Thread) (i : Nat) {d : Deed α} {d' : Deed α'}
    (hd : Deed.Alike L.act d d') :
    L.Alike (st.move (.deed t i d)) (st'.move (.deed t i d')) := by
  refine h.withHeld t i fun held held' hheld => ?_
  have after {m : μ} {m' : μ'} {w : ω} {w' : ω'} (hm : L.marshal m m') (hw : L.world w w') :
      L.Alike
        { st.withWorld w with holdings := st.holdings.set i { held with marshal := m } }
        { st'.withWorld w' with holdings := st'.holdings.set i { held' with marshal := m' } } :=
    { h with
      calls := { h.calls with world := hw }
      holdings := forall₂_set h.holdings i { hheld with marshal := hm } }
  cases hd with
  | look => exact after hheld.marshal h.calls.world
  | reset =>
    obtain ⟨hm, hw⟩ := L.reset hheld.marshal h.calls.world
    exact after hm hw
  | close =>
    obtain ⟨hm, hw⟩ := L.close hheld.marshal h.calls.world
    exact after hm hw
  | act ha => exact after (L.acted ha hheld.marshal) h.calls.world

/-- **Moves that are alike keep states alike**, as long as opening a marshal ends alike. -/
theorem move (h : L.Alike st st') {m : Custody.Move μ χ α} {m' : Custody.Move μ' χ' α'}
    (hm : Custody.Move.Alike L.change L.act m m')
    (same : ∀ turn turn', st.turn? m = some turn → st'.turn? m' = some turn' →
      turn.dialled? = turn'.dialled?) : L.Alike (st.move m) (st'.move m') := by
  cases hm with
  | request t place r =>
    have hc : Call.Alike L.marshal (r.call : Call μ) (r.call : Call μ') := by
      cases r <;> constructor
    rw [Custody.move, Custody.move, h.canCall]
    split
    · exact { h.start t place hc with leasing := by rw [h.leasing] }
    · exact h
  | release t place i =>
    refine h.withHeld t i fun held held' hheld => ?_
    rw [hheld.leased, h.canCall]
    split
    · exact h.giveBack t place i hheld
    · exact h
  | endLease t i =>
    refine h.withHeld t i fun held held' hheld => ?_
    rw [hheld.leased, hheld.origin]
    cases held'.origin with
    | none => exact h
    | some place =>
      dsimp only
      rw [h.canCall]
      split
      · exact h.giveBack t place i hheld
      · exact h
  | detach t i =>
    refine h.withHeld t i fun held held' hheld => ?_
    exact { h with holdings := forall₂_set h.holdings i { hheld with leased := rfl } }
  | drop t i =>
    refine h.withHeld t i fun held held' hheld => ?_
    rw [hheld.leased]
    split
    · exact h
    · exact { h with
        holdings := forall₂_eraseIdx h.holdings i
        dropped := .cons hheld h.dropped }
  | pass t i receiver =>
    refine h.withHeld t i fun held held' hheld => ?_
    exact { h with holdings := forall₂_set h.holdings i { hheld with owner := rfl } }
  | deed t i hd => exact h.deed t i hd
  | change hc => exact { h with calls := { h.calls with world := L.changed hc h.calls.world } }
  | dropSession t place =>
    rw [Custody.move, Custody.move, h.canCall, h.isBorrowed]
    split
    · exact { h.start t place .close with gone := by rw [h.gone] }
    · exact h
  | advance t => exact h.advance t same

/-! ### Runs -/

/-- **Runs that are alike keep states alike**, as long as the attempts to open marshals end alike:
in every turn, and after every number of moves. -/
theorem run {moves : List (Custody.Move μ χ α)} {moves' : List (Custody.Move μ' χ' α')}
    (hmoves : List.Forall₂ (Custody.Move.Alike L.change L.act) moves moves') (h : L.Alike st st')
    (same : Turn.dials (st.turns moves) = Turn.dials (st'.turns moves')) :
    List.Forall₂ L.TurnAlike (st.turns moves) (st'.turns moves') ∧
      ∀ n, L.Alike (st.run (moves.take n)) (st'.run (moves'.take n)) := by
  induction hmoves generalizing st st' with
  | nil => exact ⟨.nil, fun n => by rwa [List.take_nil, List.take_nil]⟩
  | @cons m m' moves moves' hm hmoves ih =>
    rw [Custody.turns, Custody.turns, Turn.dials, Turn.dials, List.filterMap_append,
      List.filterMap_append] at same
    rw [Custody.turns, Custody.turns]
    -- If the first moves make an attempt, that is the first one in both runs.
    have hfirst : Option.Rel (fun turn turn' => L.TurnAlike turn turn' ∧
          turn.dialled? = turn'.dialled?) (st.turn? m) (st'.turn? m') ∧
        Turn.dials ((st.move m).turns moves) = Turn.dials ((st'.move m').turns moves') := by
      have hturn := h.turn? hm
      generalize st.turn? m = turn at hturn same ⊢
      generalize st'.turn? m' = turn' at hturn same ⊢
      cases hturn with
      | none => exact ⟨.none, same⟩
      | @some turn turn' hturn =>
        have hboth := hturn.isSome_dialled?
        simp only [Option.toList_some, List.filterMap_cons, List.filterMap_nil] at same
        cases hdialled : turn.dialled? with
        | none =>
          have hdialled' : turn'.dialled? = none := by simpa [hdialled] using hboth
          rw [hdialled, hdialled'] at same
          exact ⟨.some ⟨hturn, hdialled.trans hdialled'.symm⟩, same⟩
        | some ok =>
          obtain ⟨ok', hdialled'⟩ := Option.isSome_iff_exists.mp
            (by rw [← hboth, hdialled]; rfl : turn'.dialled?.isSome = true)
          rw [hdialled, hdialled'] at same
          obtain ⟨rfl, hrest⟩ := List.cons.inj same
          exact ⟨.some ⟨hturn, hdialled.trans hdialled'.symm⟩, hrest⟩
    obtain ⟨hturn, hrest⟩ := hfirst
    have hnext : L.Alike (st.move m) (st'.move m') := by
      refine h.move hm fun turn turn' hsome hsome' => ?_
      rw [hsome, hsome'] at hturn
      cases hturn with
      | some hturn => exact hturn.2
    obtain ⟨hturns, hstates⟩ := ih hnext hrest
    refine ⟨?_, fun n => ?_⟩
    · generalize st.turn? m = turn at hturn ⊢
      generalize st'.turn? m' = turn' at hturn ⊢
      cases hturn with
      | none => exact hturns
      | some hturn => exact .cons hturn.1 hturns
    · cases n with
      | zero => exact h
      | succ n => exact hstates n

end Alike

/-- A likeness under which the attempts to open a marshal end alike anyway. -/
def IsExact (L : Likeness φ μ ω χ α φ' μ' ω' χ' α') : Prop :=
  ∀ m m' w w' host port, L.marshal m m' → L.world w w' →
    (Marshal.dial m host port w).1 = (Marshal.dial m' host port w').1

theorem IsExact.dialled?_eq (exact : L.IsExact) {turn : Turn φ μ ω} {turn' : Turn φ' μ' ω'}
    (h : L.TurnAlike turn turn') : turn.dialled? = turn'.dialled? := by
  have hcall := h.call
  rw [Turn.dialled?_eq, Turn.dialled?_eq, h.session.domain]
  generalize turn.call = call at hcall ⊢
  generalize turn'.call = call' at hcall ⊢
  cases hcall with
  | dial hm => exact congrArg some (exact _ _ _ _ _ _ hm h.world)
  | _ => rfl

theorem IsExact.dials_eq (exact : L.IsExact) {st : Custody φ μ ω} {st' : Custody φ' μ' ω'}
    {moves : List (Custody.Move μ χ α)} {moves' : List (Custody.Move μ' χ' α')}
    (hmoves : List.Forall₂ (Custody.Move.Alike L.change L.act) moves moves') (h : L.Alike st st') :
    Turn.dials (st.turns moves) = Turn.dials (st'.turns moves') := by
  induction hmoves generalizing st st' with
  | nil => rfl
  | @cons m m' moves moves' hm hmoves ih =>
    have hturn := h.turn? hm
    have hnext : L.Alike (st.move m) (st'.move m') := by
      refine h.move hm fun turn turn' hsome hsome' => ?_
      rw [hsome, hsome'] at hturn
      cases hturn with
      | some hturn => exact exact.dialled?_eq hturn
    have hrest := ih hnext
    rw [Turn.dials, Turn.dials] at hrest ⊢
    rw [Custody.turns, Custody.turns, List.filterMap_append, List.filterMap_append, hrest]
    congr 1
    generalize st.turn? m = turn at hturn ⊢
    generalize st'.turn? m' = turn' at hturn ⊢
    cases hturn with
    | none => rfl
    | some hturn =>
      simp only [Option.toList_some, List.filterMap_cons, exact.dialled?_eq hturn]
      rfl

/-! ### Calls that run alone -/

section Alone

variable {s : Session φ μ} {s' : Session φ' μ'} {w : ω} {w' : ω'}

/-- Sessions and worlds that are alike. -/
def Alongside (L : Likeness φ μ ω χ α φ' μ' ω' χ' α') (after : Session φ μ × ω)
    (after' : Session φ' μ' × ω') : Prop :=
  Session.Alike L.factory L.marshal after.1 after'.1 ∧ L.world after.2 after'.2

theorem alongside_acquire (exact : L.IsExact) (hs : Session.Alike L.factory L.marshal s s')
    (hw : L.world w w') :
    Option.Rel L.marshal (s.acquire w).1 (s'.acquire w').1 ∧
      L.Alongside (s.acquire w).2 (s'.acquire w').2 := by
  have hidle := hs.idle
  simp only [Session.acquire, Pool.take, ← hs.domain]
  generalize s.pool.idle = idle at hidle
  generalize s'.pool.idle = idle' at hidle
  cases hidle with
  | cons hm hrest =>
    obtain ⟨hreset, hworld⟩ := L.reset hm hw
    have hmore := congrArg (· + 1) hs.outstanding
    exact ⟨.some hreset, { hs with domain := rfl, idle := hrest, outstanding := hmore }, hworld⟩
  | nil =>
    obtain ⟨hmade, hw₁⟩ := L.create hs.factory hw
    have hsame := exact _ _ _ _ s.domain.host s.domain.port hmade hw₁
    obtain ⟨hdialled, hw₂⟩ := L.dial hmade hw₁ _ _ hsame
    dsimp only
    rw [← hsame]
    -- The attempt has succeeded in both, or in none.
    split
    · obtain ⟨hreset, hworld⟩ := L.reset hdialled hw₂
      have hmore := congrArg (· + 1) hs.outstanding
      exact ⟨.some hreset, { hs with domain := rfl, idle := .nil, outstanding := hmore }, hworld⟩
    · exact ⟨.none, { hs with domain := rfl, idle := .nil, outstanding := hs.outstanding }, hw₂⟩

theorem alongside_release (hs : Session.Alike L.factory L.marshal s s') (hw : L.world w w')
    {m : μ} {m' : μ'} (hm : L.marshal m m') :
    (s.release m w).1 = (s'.release m' w').1 ∧
      L.Alongside (s.release m w).2 (s'.release m' w').2 := by
  obtain ⟨hreset, hworld⟩ := L.reset hm hw
  have hless := congrArg (· - 1) hs.outstanding
  simp only [Session.release, Pool.put, hs.closed]
  by_cases hclosed : s'.pool.closed = true
  · rw [if_pos hclosed, if_pos hclosed]
    have hrefused : (Except.error (.sessionClosed s.localId) : Except Error Unit) =
        .error (.sessionClosed s'.localId) := by rw [hs.localId]
    exact ⟨hrefused, { hs with outstanding := hless }, (L.close hreset hworld).2⟩
  · rw [if_neg hclosed, if_neg hclosed]
    exact ⟨rfl, { hs with idle := .cons hreset hs.idle, outstanding := hless }, hworld⟩

theorem alongside_close (hs : Session.Alike L.factory L.marshal s s') (hw : L.world w w') :
    (s.close w).1 = (s'.close w').1 ∧ L.Alongside (s.close w).2 (s'.close w').2 := by
  simp only [Session.close, Pool.drain, hs.closed]
  by_cases hclosed : s'.pool.closed = true
  · rw [if_pos hclosed, if_pos hclosed]
    exact ⟨rfl, hs, hw⟩
  · rw [if_neg hclosed, if_neg hclosed]
    exact ⟨hs.idle.length_eq, { hs with idle := .nil, closed := rfl }, closeEach hs.idle hw⟩

end Alone

end Likeness

end SessionPool
