import SessionPool.Script.Perform

/-!
# What reaches the sockets

A marshal over TCP keeps the options that it was made with, whatever is done to it, and it contacts
every address with these. Seen by a network that writes down its contacts:

    contact ∈ contacts  ⟹  contact.options = m.options.

So the sockets never see another amount than the ones in the options of the factory. The same
network writes down which connections came of the contacts and which ones were ended.
-/

namespace SessionPool.Tcp

open Script (Deed TcpAct)

/-- A network together with what was seen of it so far: the contacts, each with its address and the
options asked of it, the connections that came of them, and the connections that were ended. -/
structure Observed (ω : Type) where
  world : ω
  contacts : List (Address × Options) := []
  made : List Stream := []
  ended : List Stream := []

variable {ω ε : Type} [Network ω ε]

/-- Whatever is done is written down; the answers are those of the network itself. -/
instance : Network (Observed ω) ε where
  resolve host port w :=
    let (found, world) := Network.resolve host port w.world
    (found, { w with world })
  contact a o w :=
    let (answer, world) := Network.contact a o w.world
    (answer, { w with
      world
      contacts := w.contacts ++ [(a, o)]
      made := w.made ++ if (answer.verdict o).isOk then [⟨a, o⟩] else [] })
  shutdown s w := { w with world := Network.shutdown s w.world, ended := w.ended ++ [s] }

/-! ### Contacts -/

/-- All contacts were made with the same options. -/
def Observed.Only (w : Observed ω) (o : Options) : Prop := ∀ contact ∈ w.contacts, contact.2 = o

theorem only_contact {w : Observed ω} {o : Options} (h : w.Only o) (a : Address) :
    (Network.contact a o w).2.Only o := by
  intro contact hcontact
  rcases List.mem_append.mp hcontact with hold | hnew
  · exact h contact hold
  · rw [List.mem_singleton.mp hnew]

theorem only_tryEach {o : Options} (last : Fault ε) (addresses : List Address) {w : Observed ω}
    (h : w.Only o) : (tryEach o last addresses w).2.Only o := by
  induction addresses generalizing last w with
  | nil => exact h
  | cons a rest ih =>
    have hnext := only_contact h a
    rw [tryEach]
    dsimp only
    split
    · exact hnext
    · exact ih _ hnext

theorem only_connect {o : Options} (host : String) (port : UInt16) {w : Observed ω}
    (h : w.Only o) : (connect o host port w).2.Only o := by
  rw [connect]
  dsimp only [Network.resolve]
  split
  · next hresolve =>
    obtain ⟨-, rfl⟩ := Prod.mk.inj hresolve
    exact h
  · next hresolve =>
    obtain ⟨-, rfl⟩ := Prod.mk.inj hresolve
    exact only_tryEach _ _ h

/-! ### What nobody notices -/

/-- Nobody notices that contacts are written down. -/
theorem tryEach_observed (o : Options) (last : Fault ε) (addresses : List Address)
    (w : Observed ω) :
    (tryEach o last addresses w).1 = (tryEach o last addresses w.world).1 ∧
      (tryEach o last addresses w).2.world = (tryEach o last addresses w.world).2 := by
  induction addresses generalizing last w with
  | nil => exact ⟨rfl, rfl⟩
  | cons a rest ih =>
    rw [tryEach, tryEach]
    dsimp only [Network.contact]
    cases (Network.contact a o w.world).1.verdict o with
    | ok => exact ⟨rfl, rfl⟩
    | error reason => exact ih (.failed reason) _

theorem connect_observed (o : Options) (host : String) (port : UInt16) (w : Observed ω) :
    (connect o host port w).1 = (connect o host port w.world).1 ∧
      (connect o host port w).2.world = (connect o host port w.world).2 := by
  rw [connect, connect]
  dsimp only [Network.resolve]
  generalize Network.resolve host port w.world = resolved
  obtain ⟨found, world⟩ := resolved
  cases found with
  | error fault => exact ⟨rfl, rfl⟩
  | ok addresses => exact tryEach_observed o _ addresses { w with world }

theorem Marshal.dial_observed (m : Marshal) (host : String) (port : UInt16) (w : Observed ω) :
    (m.dial host port w).1 = (m.dial host port w.world).1 ∧
      (m.dial host port w).2.1 = (m.dial host port w.world).2.1 ∧
      (m.dial host port w).2.2.world = (m.dial host port w.world).2.2 := by
  have hconnect := connect_observed m.options host port w
  rw [dial, dial]
  generalize connect m.options host port w = out at hconnect ⊢
  generalize connect m.options host port w.world = out' at hconnect ⊢
  obtain ⟨result, w₁⟩ := out
  obtain ⟨result', w₁'⟩ := out'
  obtain ⟨rfl, rfl⟩ := hconnect
  cases result <;> exact ⟨rfl, rfl, rfl⟩

theorem Marshal.close_observed (m : Marshal) (w : Observed ω) :
    (m.close w).2.world = (m.close w.world).2 := by
  rw [close, close]
  cases m.stream <;> rfl

/-! ### Connections -/

/-- A contact comes to a connection in the end, or the attempt fails. -/
theorem made_tryEach (o : Options) (last : Fault ε) (addresses : List Address) (w : Observed ω) :
    (tryEach o last addresses w).2.made =
      w.made ++ (tryEach o last addresses w).1.toOption.toList := by
  induction addresses generalizing last w with
  | nil => exact (List.append_nil _).symm
  | cons a rest ih =>
    have hmade : (Network.contact a o w).2.made =
        w.made ++ if ((Network.contact a o w).1.verdict o).isOk then [⟨a, o⟩] else [] := rfl
    rw [tryEach]
    dsimp only
    cases hverdict : (Network.contact a o w).1.verdict o with
    | ok =>
      rw [hverdict] at hmade
      exact hmade
    | error reason =>
      rw [hverdict] at hmade
      have hsame : (Network.contact a o w).2.made = w.made := hmade.trans (List.append_nil _)
      rw [← hsame]
      exact ih (.failed reason) _

theorem ended_tryEach (o : Options) (last : Fault ε) (addresses : List Address) (w : Observed ω) :
    (tryEach o last addresses w).2.ended = w.ended := by
  induction addresses generalizing last w with
  | nil => rfl
  | cons a rest ih =>
    rw [tryEach]
    dsimp only
    cases (Network.contact a o w).1.verdict o with
    | ok => rfl
    | error reason => exact ih (.failed reason) _

theorem made_connect (o : Options) (host : String) (port : UInt16) (w : Observed ω) :
    (connect o host port w).2.made = w.made ++ (connect o host port w).1.toOption.toList := by
  rw [connect]
  dsimp only [Network.resolve]
  cases (Network.resolve host port w.world).1 with
  | error reason => exact (List.append_nil _).symm
  | ok addresses => exact made_tryEach o _ addresses _

theorem ended_connect (o : Options) (host : String) (port : UInt16) (w : Observed ω) :
    (connect o host port w).2.ended = w.ended := by
  rw [connect]
  dsimp only [Network.resolve]
  cases (Network.resolve host port w.world).1 with
  | error reason => rfl
  | ok addresses => exact ended_tryEach o _ addresses _

namespace Marshal

/-- A marshal that is opened has made one connection, and one that is not has made none. -/
theorem made_dial (m : Marshal) (host : String) (port : UInt16) (w : Observed ω) :
    (m.dial host port w).2.2.made.length = w.made.length + (m.dial host port w).1.toNat := by
  have hmade := made_connect m.options host port w
  rw [dial]
  generalize connect m.options host port w = out at hmade ⊢
  obtain ⟨result, w₁⟩ := out
  cases result with
  | ok stream => exact (congrArg List.length hmade).trans List.length_append
  | error fault => exact (congrArg List.length hmade).trans List.length_append

theorem ended_dial (m : Marshal) (host : String) (port : UInt16) (w : Observed ω) :
    (m.dial host port w).2.2.ended = w.ended := by
  have hended := ended_connect m.options host port w
  rw [dial]
  generalize connect m.options host port w = out at hended ⊢
  obtain ⟨result, w₁⟩ := out
  cases result <;> exact hended

/-- Closing a marshal ends the connection that it has. -/
theorem ended_close (m : Marshal) (w : Observed ω) :
    (m.close w).2.ended = w.ended ++ m.stream.toList := by
  rw [close]
  cases m.stream with
  | none => exact (List.append_nil _).symm
  | some stream => rfl

theorem made_close (m : Marshal) (w : Observed ω) : (m.close w).2.made = w.made := by
  rw [close]
  cases m.stream <;> rfl

/-! ### Whatever is done to a marshal -/

/-- Does one thing after the other to a marshal. -/
def use (m : Marshal) (w : ω) : List (Deed TcpAct) → Marshal × ω
  | [] => (m, w)
  | d :: deeds =>
    let (_, m, w) := Script.State.doDeed m w d
    m.use w deeds

/-- What is done to a marshal leaves its options alone, and whatever is contacted meanwhile is
contacted with them. -/
theorem only_doDeed (m : Marshal) {w : Observed ω} (h : w.Only m.options) (d : Deed TcpAct) :
    (Script.State.doDeed m w d).2.1.options = m.options ∧
      (Script.State.doDeed m w d).2.2.Only m.options := by
  cases d with
  | look => exact ⟨rfl, h⟩
  | dial host port =>
    have hconnect := only_connect host port h
    show (m.dial host port w).2.1.options = _ ∧ (m.dial host port w).2.2.Only _
    rw [dial]
    split
    · next hopened =>
      rw [hopened] at hconnect
      exact ⟨rfl, hconnect⟩
    · next hrefused =>
      rw [hrefused] at hconnect
      exact ⟨rfl, hconnect⟩
  | reset => exact ⟨rfl, h⟩
  | close =>
    refine ⟨rfl, ?_⟩
    show (m.close w).2.Only m.options
    rw [close]
    cases m.stream <;> exact h
  | act a =>
    cases a with
    | write bytes => exact ⟨rfl, h⟩
    | takeMessageIds count =>
      refine ⟨?_, h⟩
      show (m.nextMessageIds count).2.options = m.options
      induction count generalizing m with
      | zero => rfl
      | succ count ih => exact ih m.nextMessageId.2 h

theorem only_use (deeds : List (Deed TcpAct)) (m : Marshal) {w : Observed ω}
    (h : w.Only m.options) : (m.use w deeds).2.Only m.options := by
  induction deeds generalizing m w with
  | nil => exact h
  | cons d deeds ih =>
    obtain ⟨hsame, honly⟩ := only_doDeed m h d
    rw [← hsame] at honly ⊢
    exact ih _ honly

end Marshal

/-- What the sockets see when a factory makes a marshal and things are done to it. -/
def Factory.contacts (f : Factory) (w : ω) (deeds : List (Deed TcpAct)) :
    List (Address × Options) :=
  let (m, w) := Source.create f ({ world := w } : Observed ω)
  (Marshal.use m w deeds).2.contacts

/-- Whatever becomes of a marshal that a factory has made, the sockets see the options of the
factory and no others. -/
theorem Factory.contacts_options {f : Factory} {w : ω} {deeds : List (Deed TcpAct)}
    {contact : Address × Options} (h : contact ∈ f.contacts w deeds) : contact.2 = f.options := by
  refine Marshal.only_use (ω := ω) deeds { options := f.options } ?_ contact h
  simp [Observed.Only]

end SessionPool.Tcp
