import Mathlib.Data.List.DropRight
import Mathlib.Data.List.Infix
import SessionPool.Tcp.Loopback

/-!
# Message ids and streams

A reset begins a new exchange on the same stream. Whatever else is done to a marshal over TCP, the
ids of its messages count on from one reset to the next,

    reset · 0 · 1 · 2 · … · 4294967295 · 0 · … · reset · 0 · …,

and whether it is open is decided by the latest attempt to open or close it, whichever resets there
were. Both are told from the history of the marshal alone.
-/

namespace SessionPool.Tcp

/-! ### Histories -/

/-- Something that was done to a marshal, with what came of it. -/
inductive Happening where
  | dialled (ok : Bool)
  | reset
  | closed
  | edited
  | gaveId (id : UInt32)
  deriving DecidableEq, Repr

namespace Happening

/-- The id of a message, if one was given. -/
def id? : Happening → Option UInt32
  | gaveId id => some id
  | _ => none

/-- The marshal was told to open or to close. -/
def isAboutStream : Happening → Bool
  | dialled _ | closed => true
  | _ => false

/-- The ids that were given to messages. -/
def ids (past : List Happening) : List UInt32 := past.filterMap id?

/-- What has happened since the latest reset, or from the beginning if there was none. -/
def exchange (past : List Happening) : List Happening := past.rtakeWhile (· ≠ reset)

/-- How many messages of the exchange in progress were given an id. -/
def count (past : List Happening) : Nat := (ids (exchange past)).length

/-- The latest of all attempts to open or close the marshal was to open it, and it succeeded. -/
def LatestOpened (past : List Happening) : Prop :=
  (past.filter isAboutStream).getLast? = some (dialled true)

/-- Every message was given the number of those before it in the same exchange, in words of 32
bits. -/
def CountsMessages (past : List Happening) : Prop :=
  ∀ before id, before ++ [gaveId id] <+: past → id.toNat = count before % UInt32.size

variable {past before segment : List Happening} {e : Happening}

theorem ids_append (before segment : List Happening) :
    ids (before ++ segment) = ids before ++ ids segment := List.filterMap_append

theorem exchange_append (h : reset ∉ segment) :
    exchange (before ++ segment) = exchange before ++ segment := by
  induction segment using List.reverseRecOn with
  | nil => rw [List.append_nil, List.append_nil]
  | append_singleton segment e ih =>
    obtain ⟨hsegment, he⟩ := not_or.mp (mt List.mem_append.mpr h)
    rw [← List.append_assoc, exchange, List.rtakeWhile_concat_pos, ← exchange, ih hsegment,
      List.append_assoc]
    exact decide_eq_true fun heq => he (heq ▸ List.mem_singleton_self _)

theorem count_append (h : reset ∉ segment) :
    count (before ++ segment) = count before + (ids segment).length := by
  rw [count, exchange_append h, ids_append, List.length_append, count]

theorem count_concat_reset (past : List Happening) : count (past ++ [reset]) = 0 := by
  rw [count, exchange, List.rtakeWhile_concat_neg _ _ _ (by simp)]
  rfl

theorem latestOpened_concat (h : e.isAboutStream = true) (past : List Happening) :
    LatestOpened (past ++ [e]) ↔ e = dialled true := by
  simp [LatestOpened, List.filter_append, h]

theorem latestOpened_concat_of_not (h : e.isAboutStream = false) (past : List Happening) :
    LatestOpened (past ++ [e]) ↔ LatestOpened past := by
  simp [LatestOpened, List.filter_append, h]

theorem CountsMessages.concat (h : CountsMessages past)
    (he : ∀ id, e = gaveId id → id.toNat = count past % UInt32.size) :
    CountsMessages (past ++ [e]) := by
  intro before id hbefore
  rcases List.prefix_concat_iff.mp hbefore with hlast | hearlier
  · obtain ⟨rfl, rfl⟩ := List.append_singleton_inj.mp hlast
    exact he id rfl
  · exact h before id hearlier

/-! ### The ids of one exchange -/

/-- `n` ids that count on from `k`. -/
def idsFrom (k n : Nat) : List UInt32 := (List.range n).map fun i => UInt32.ofNat (k + i)

theorem idsFrom_succ (k n : Nat) : idsFrom k (n + 1) = idsFrom k n ++ [UInt32.ofNat (k + n)] := by
  simp [idsFrom, List.range_succ]

theorem nodup_take_idsFrom (k n : Nat) : ((idsFrom k n).take UInt32.size).Nodup := by
  rw [idsFrom, ← List.map_take, List.take_range, List.Nodup, List.pairwise_map]
  refine List.pairwise_lt_range.imp_of_mem fun hi hj hlt heq => ?_
  have heq := congrArg UInt32.toNat heq
  simp only [List.mem_range, UInt32.toNat_ofNat', UInt32.size] at hi hj heq
  omega

/-- Between two resets the ids count on, whatever else happens there. -/
theorem CountsMessages.ids_eq (h : CountsMessages past) (hsegment : before ++ segment <+: past)
    (hreset : reset ∉ segment) : ids segment = idsFrom (count before) (ids segment).length := by
  induction segment using List.reverseRecOn with
  | nil => rfl
  | append_singleton segment e ih =>
    obtain ⟨hnone, -⟩ := not_or.mp (mt List.mem_append.mpr hreset)
    rw [← List.append_assoc] at hsegment
    have hearlier := ih ((List.prefix_append _ _).trans hsegment) hnone
    rw [ids_append]
    cases e with
    | gaveId id =>
      have hid : id = UInt32.ofNat (count before + (ids segment).length) := by
        rw [← UInt32.toNat_inj, h _ id hsegment, count_append hnone]
        simp [UInt32.size]
      rw [List.length_append, show (ids [gaveId id]).length = 1 from rfl, idsFrom_succ, ← hearlier,
        ← hid]
      rfl
    | _ => rwa [show ids [_] = [] from rfl, List.append_nil]

end Happening

open Happening

/-! ### What is done to a marshal -/

/-- What is done to a marshal, or what happens to the world meanwhile. Its scratch buffer may be
edited in any way. -/
inductive Handling (ω : Type) where
  | dial (host : String) (port : UInt16)
  | reset
  | close
  | edit (change : List UInt8 → List UInt8)
  | nextMessageId
  | meanwhile (change : ω → ω)

/-- A marshal after it was handled, and its history. -/
structure Handled (ω : Type) where
  marshal : Marshal
  world : ω
  past : List Happening := []

variable {ω ε : Type} [Network ω ε]

namespace Marshal

/-- A marshal has a stream after an attempt to connect when the attempt succeeds. -/
theorem dial_isOpen (m : Marshal) (host : String) (port : UInt16) (w : ω) :
    (m.dial host port w).2.1.isOpen = (m.dial host port w).1 := by
  rw [dial]
  split <;> rfl

theorem dial_nextId (m : Marshal) (host : String) (port : UInt16) (w : ω) :
    (m.dial host port w).2.1.nextId = m.nextId := by
  rw [dial]
  split <;> rfl

end Marshal

namespace Handled

/-- Handles a marshal once more. -/
def go (st : Handled ω) : Handling ω → Handled ω
  | .dial host port =>
    let (ok, marshal, world) := st.marshal.dial host port st.world
    { marshal, world, past := st.past ++ [.dialled ok] }
  | .reset =>
    let (marshal, world) := st.marshal.reset st.world
    { marshal, world, past := st.past ++ [.reset] }
  | .close =>
    let (marshal, world) := st.marshal.close st.world
    { marshal, world, past := st.past ++ [.closed] }
  | .edit change =>
    { st with
      marshal := { st.marshal with scratch := change st.marshal.scratch }
      past := st.past ++ [.edited] }
  | .nextMessageId =>
    let (id, marshal) := st.marshal.nextMessageId
    { st with marshal, past := st.past ++ [.gaveId id] }
  | .meanwhile change => { st with world := change st.world }

/-- Writing to the scratch buffer is one way to edit it. -/
theorem go_edit_append (st : Handled ω) (bytes : List UInt8) :
    (st.go (.edit (· ++ bytes))).marshal = st.marshal.write bytes := rfl

/-- Handles a marshal in several ways one after the other. -/
def run (st : Handled ω) (handlings : List (Handling ω)) : Handled ω := handlings.foldl go st

/-- The history tells what the counter of the marshal stands at, which ids it has given, and whether
it is open. -/
structure Told (st : Handled ω) : Prop where
  counter : st.marshal.nextId.toNat = count st.past % UInt32.size
  given : CountsMessages st.past
  isOpen_iff : st.marshal.isOpen = true ↔ LatestOpened st.past

variable {st : Handled ω}

omit [Network ω ε] in
/-- The counter stays where it is when there is neither a reset nor a message. -/
theorem Told.concat {e : Happening} (h : st.Told) (hreset : e ≠ .reset) (hid : e.id? = none)
    {marshal : Marshal} (world : ω) (hcounter : marshal.nextId = st.marshal.nextId)
    (isOpen_iff : marshal.isOpen = true ↔ LatestOpened (st.past ++ [e])) :
    Told { marshal, world, past := st.past ++ [e] } where
  counter := by
    have hnone : ids [e] = [] := by simp [ids, hid]
    rw [hcounter, h.counter, count_append (by simpa using hreset.symm), hnone]
    rfl
  given := h.given.concat fun id he => by
    rw [he] at hid
    cases hid
  isOpen_iff := isOpen_iff

/-- **Step**. -/
theorem Told.go (h : st.Told) (handling : Handling ω) : (st.go handling).Told := by
  cases handling with
  | dial host port =>
    have hopen : (st.marshal.dial host port st.world).2.1.isOpen = true ↔
        LatestOpened (st.past ++ [.dialled (st.marshal.dial host port st.world).1]) := by
      rw [Marshal.dial_isOpen, latestOpened_concat rfl, dialled.injEq]
    exact h.concat (by simp) rfl _ (st.marshal.dial_nextId host port st.world) hopen
  | reset =>
    refine ⟨?_, h.given.concat (by simp), ?_⟩
    · show (0 : UInt32).toNat = count (st.past ++ [.reset]) % UInt32.size
      rw [count_concat_reset]
      rfl
    · exact h.isOpen_iff.trans (latestOpened_concat_of_not rfl _).symm
  | close =>
    have hopen : (st.marshal.close st.world).1.isOpen = true ↔
        LatestOpened (st.past ++ [.closed]) := by
      rw [latestOpened_concat rfl]
      constructor
      · intro h
        cases h
      · intro h
        cases h
    exact h.concat (by simp) rfl _ rfl hopen
  | edit change =>
    exact h.concat (by simp) rfl _ rfl
      (h.isOpen_iff.trans (latestOpened_concat_of_not rfl _).symm)
  | nextMessageId =>
    refine ⟨?_, h.given.concat ?_, ?_⟩
    · show (st.marshal.nextId + 1).toNat = count (st.past ++ [.gaveId _]) % UInt32.size
      rw [count_append (by simp), UInt32.toNat_add, h.counter]
      simp [ids, id?, UInt32.size]
    · rintro id ⟨⟩
      exact h.counter
    · exact h.isOpen_iff.trans (latestOpened_concat_of_not rfl _).symm
  | meanwhile change => exact ⟨h.counter, h.given, h.isOpen_iff⟩

/-- **Run**. -/
theorem Told.run (h : st.Told) (handlings : List (Handling ω)) : (st.run handlings).Told := by
  induction handlings generalizing st with
  | nil => exact h
  | cons handling handlings ih => exact ih (h.go handling)

/-- A new marshal that nothing was done with yet. -/
def fresh (o : Options) (w : ω) : Handled ω where
  marshal := { options := o }
  world := w

omit [Network ω ε] in
theorem told_fresh (o : Options) (w : ω) : (fresh o w).Told where
  counter := rfl
  given before id h := absurd (List.prefix_nil.mp h) (by simp)
  isOpen_iff := by simp [fresh, Marshal.isOpen, LatestOpened]

/-- What the history of a marshal says about its messages and its stream. -/
structure KeepsToExchanges (st : Handled ω) : Prop where
  given : CountsMessages st.past
  /-- No two of the first 2^32 messages between two resets have the same id. -/
  distinct : ∀ before segment, before ++ segment <+: st.past → .reset ∉ segment →
    ((ids segment).take UInt32.size).Nodup
  isOpen_iff : st.marshal.isOpen = true ↔ LatestOpened st.past
  /-- A new exchange begins on the same stream. -/
  isOpen_reset : (st.marshal.reset st.world).1.isOpen = st.marshal.isOpen

/-- **Exchanges**: whatever is done to a new marshal, its messages are counted from one reset to the
next, and only opening and closing decide whether it is open. -/
theorem keepsToExchanges_run (o : Options) (w : ω) (handlings : List (Handling ω)) :
    ((fresh o w).run handlings).KeepsToExchanges := by
  have htold := (told_fresh o w).run handlings
  refine {
    given := htold.given
    distinct := ?distinct
    isOpen_iff := htold.isOpen_iff
    isOpen_reset := rfl }
  intro before segment hsegment hreset
  rw [htold.given.ids_eq hsegment hreset]
  exact nodup_take_idsFrom _ _

/-- Closing a marshal does not begin an exchange, and writing to its buffer does not either. -/
example : ids ((fresh {} {} : Handled Loopback).run [.nextMessageId, .close, .nextMessageId,
    .edit (· ++ [7]), .nextMessageId, .reset, .nextMessageId]).past = [0, 1, 2, 0] := by
  decide

end Handled

end SessionPool.Tcp
