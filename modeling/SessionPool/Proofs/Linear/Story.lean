import SessionPool.Proofs.Custody.Moves

/-!
# The stories of calls

A session looks after its pool under a lock, and calls of many threads take turns at it. The story
of a call tells what the call was, what it met outside of the lock, and how far it has come. A
chronicle keeps the stories of a run in the order in which the calls first had the lock. With that
order at hand the calls can be made again, one after the other and each one alone.
-/

namespace SessionPool

open Session (Call Result)
open Script (World Holder)

variable {φ μ ω χ α : Type}

/-! ### Making a call alone -/

namespace Session

variable [Marshal μ ω] [Source φ μ ω]

/-- Makes a call from its beginning to its end. What callers do not begin with has no result. -/
def serve (s : Session φ μ) (w : ω) : Call μ → Option (Result μ) × Session φ μ
  | .acquire =>
    let (m, s, _) := s.acquire w
    (some (.acquired m), s)
  | .release m =>
    let (answer, s, _) := s.release m w
    let refusal := match answer with
      | .ok () => none
      | .error e => some e
    (some (.released refusal), s)
  | .close =>
    let (count, s, _) := s.close w
    (some (.closed count), s)
  | .pooled => (some (.pooled s.pooled), s)
  | .isClosed => (some (.isClosed s.isClosed), s)
  | _ => (none, s)

end Session

/-! ### What a call meets outside of the lock -/

/-- The worlds in which a call creates, opens and resets a marshal. -/
structure Scenes (ω : Type) where
  create : ω
  dial : ω
  reset : ω

/-- Notes in which world a call takes its next step. -/
def Scenes.note {μ : Type} (sc : Scenes ω) (w : ω) : Call μ → Scenes ω
  | .create => { sc with create := w }
  | .dial _ => { sc with dial := w }
  | .acquire | .settle _ _ | .release _ => { sc with reset := w }
  | _ => sc

/-- Scenes are a world in which everything turns out as it did there. -/
instance [Marshal μ ω] : Marshal μ (Scenes ω) where
  dial m host port sc :=
    ((Marshal.dial m host port sc.dial).1, (Marshal.dial m host port sc.dial).2.1, sc)
  reset m sc := ((Marshal.reset m sc.reset).1, sc)
  close m sc := ((Marshal.close m sc.reset).1, sc)

instance [Source φ μ ω] : Source φ μ (Scenes ω) where
  create f sc := ((Source.create f sc.create).1, sc)

/-! ### Stories -/

/-- What a thread called, what the call met, and what it does next or came back with. -/
structure Story (μ ω : Type) where
  thread : Thread
  call : Call μ
  scenes : Scenes ω
  now : Call μ ⊕ Result μ

namespace Story

/-- What the call came back with, if it has come back. -/
def result? (story : Story μ ω) : Option (Result μ) := story.now.getRight?

/-- The call as one that a thread has made to the first session, if it has come back. -/
def finished? (story : Story μ ω) : Option (Finished μ) :=
  story.result?.map fun result => ⟨story.thread, 0, story.call, result⟩

/-- Whether this is the call that a thread is in. -/
def isOpen (t : Thread) (story : Story μ ω) : Bool := story.thread == t && story.now.isLeft

/-- Goes on with the story of the call that a thread is in. -/
def goOn (t : Thread) (sc : Scenes ω) (now : Call μ ⊕ Result μ) (story : Story μ ω) : Story μ ω :=
  if story.isOpen t then { story with scenes := sc, now } else story

end Story

/-- Makes the calls of some stories one after the other, each one alone in its scenes. -/
def Session.rehearse [Marshal μ ω] [Source φ μ ω] (s : Session φ μ) :
    List (Story μ ω) → List (Option (Result μ)) × Session φ μ
  | [] => ([], s)
  | story :: stories =>
    let (result, s) := s.serve story.scenes story.call
    let (results, s) := s.rehearse stories
    (result :: results, s)

/-! ### Chronicles -/

/-- The first step of a call under the lock. -/
def Session.Call.isLocking : Call μ → Bool
  | .acquire | .put _ | .close | .pooled | .isClosed => true
  | _ => false

/-- A run so far: how things stand, the scenes of the call that each thread is in, and the stories
of the calls that have had the lock, in the order in which they first had it. -/
structure Chronicle (φ μ ω : Type) where
  custody : Custody φ μ ω
  scenes : Thread → Scenes ω
  stories : List (Story μ ω) := []

namespace Chronicle

/-- Before the first call. -/
def fresh (w : ω) (s : Session φ μ) : Chronicle φ μ ω where
  custody := Custody.fresh w [s]
  scenes _ := ⟨w, w, w⟩

variable [Marshal μ ω] [Source φ μ ω]

/-- Notes a step of a thread. A call that has the lock for the first time gets a story, which is the
last one; any other step goes on with the story of its call. -/
def record (k : Chronicle φ μ ω) (t : Thread) (p : Pending μ) (s : Session φ μ) :
    Chronicle φ μ ω :=
  let sc := (k.scenes t).note k.custody.calls.world p.next
  let now := (k.custody.calls.outcome p s).1
  { k with
    scenes := fun t' => if t' = t then sc else k.scenes t'
    stories :=
      if p.next.isLocking then k.stories ++ [⟨t, p.started, sc, now⟩]
      else k.stories.map (·.goOn t sc now) }

/-- Notes what a move is going to do. -/
def note (k : Chronicle φ μ ω) : Custody.Move μ χ α → Chronicle φ μ ω
  | .advance t =>
    match k.custody.calls.pending? t with
    | none => k
    | some p =>
      match k.custody.calls.sessions[p.place]? with
      | none => k
      | some s => k.record t p s
  | _ => k

variable [World ω χ] [Holder μ α]

/-- Notes a move and makes it. -/
def move (k : Chronicle φ μ ω) (m : Custody.Move μ χ α) : Chronicle φ μ ω :=
  { k.note m with custody := k.custody.move m }

def run (k : Chronicle φ μ ω) (moves : List (Custody.Move μ χ α)) : Chronicle φ μ ω :=
  moves.foldl move k

/-- A chronicle notes a run and does not change it. -/
theorem custody_run (k : Chronicle φ μ ω) (moves : List (Custody.Move μ χ α)) :
    (k.run moves).custody = k.custody.run moves := by
  induction moves generalizing k with
  | nil => rfl
  | cons m moves ih => exact ih (k.move m)

end Chronicle

end SessionPool
