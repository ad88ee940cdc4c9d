import Cascade.SingleFlight.Basic
/-!
Threads that share one cache. A thread is a stack of loads in progress, each with the commands its
loader still has to run; a step of a thread is one command or one change of the cache, so any order of
steps of different threads can be played. `System.run` plays one of them: every thread in turn.
-/
namespace Cascade.SingleFlight

variable {θ κ ν ε : Type}

/-- How a loader ends once its commands are done. -/
inductive Ending (ν ε : Type)
  | value (v : ν)
  | error (e : ε)
  | panic

inductive Command (θ κ ν ε : Type)
  /-- Asks for a key; if it has to be loaded, the commands run first. -/
  | get (key : κ) (body : List (Command θ κ ν ε)) (ending : Ending ν ε)
  | publish (v : ν)
  | peek (key : κ)
  | invalidate (key : κ)
  | clear
  | keys
  /-- Goes on when all these keys are being loaded. -/
  | await (keys : List κ)
  /-- Starts a thread; a name that is taken starts none. -/
  | fork (thread : θ) (commands : List (Command θ κ ν ε))
  /-- Goes on when a thread is done. -/
  | join (thread : θ)

/-- What came of a request for a key. -/
inductive Answer (ν ε : Type)
  | value (v : ν)
  | error (e : ε)
  | cycle
  | panic

def Answer.ofResult : Except ε ν → Answer ν ε
  | .ok v => value v
  | .error e => error e

def Answer.ofEnding : Ending ν ε → Answer ν ε
  | .value v => value v
  | .error e => error e
  | .panic => panic

inductive Event (θ κ ν ε : Type)
  | load (key : κ)
  | answer (key : κ) (a : Answer ν ε)
  | publish
  | peek (key : κ) (v : Option ν)
  | invalidate (key : κ) (v : Option ν)
  | clear
  | keys (keys : List κ)
  | join (thread : θ)

structure Load (κ ν ε : Type) where
  key : κ
  flight : Nat
  ending : Ending ν ε

/-- A load in progress, or the thread itself at the bottom of its stack. -/
structure Frame (θ κ ν ε : Type) where
  load : Option (Load κ ν ε)
  commands : List (Command θ κ ν ε)

/-- A request that waits for a flight. -/
structure Pending (θ κ ν ε : Type) where
  key : κ
  body : List (Command θ κ ν ε)
  ending : Ending ν ε
  flight : Nat

inductive Stage (θ κ ν ε : Type)
  /-- The next command can run. -/
  | ready
  | waiting (p : Pending θ κ ν ε)
  /-- A load has filled its slot or given it up; those who wait have still to be told. -/
  | telling (l : Load κ ν ε)

structure Thread (θ κ ν ε : Type) where
  frames : List (Frame θ κ ν ε)
  stage : Stage θ κ ν ε
  events : List (Event θ κ ν ε)

structure System (θ κ ν ε : Type) where
  cache : SingleFlight θ κ ν ε
  threads : Table θ (Thread θ κ ν ε)

namespace Thread

def start (commands : List (Command θ κ ν ε)) : Thread θ κ ν ε := ⟨[⟨none, commands⟩], .ready, []⟩

def isDone (t : Thread θ κ ν ε) : Bool := t.frames.isEmpty

def log (t : Thread θ κ ν ε) (e : Event θ κ ν ε) : Thread θ κ ν ε :=
  { t with events := t.events ++ [e] }

/-- Drops the first command of the innermost load. -/
def advance (t : Thread θ κ ν ε) : Thread θ κ ν ε :=
  match t.frames with
  | [] => t
  | f :: fs => { t with frames := { f with commands := f.commands.drop 1 } :: fs }

def answered (t : Thread θ κ ν ε) (key : κ) (a : Answer ν ε) : Thread θ κ ν ε :=
  { t with stage := .ready }.log (.answer key a)

/-- Makes a request anew that has waited in vain: it becomes the next command. -/
def askAgain (t : Thread θ κ ν ε) (p : Pending θ κ ν ε) : Thread θ κ ν ε :=
  { t with
    stage := .ready
    frames := match t.frames with
      | [] => []
      | f :: fs => { f with commands := .get p.key p.body p.ending :: f.commands } :: fs }

/-- The flight of the innermost load. -/
def flight? (t : Thread θ κ ν ε) : Option Nat := t.frames.findSome? fun f => f.load.map (·.flight)

end Thread

namespace System

variable [DecidableEq θ] [DecidableEq κ]

def put (s : System θ κ ν ε) (me : θ) (t : Thread θ κ ν ε) (c : SingleFlight θ κ ν ε) :
    System θ κ ν ε :=
  ⟨c, s.threads.set me t⟩

/-- Asks for a key. -/
def request (s : System θ κ ν ε) (me : θ) (t : Thread θ κ ν ε) (c : SingleFlight θ κ ν ε) (key : κ)
    (body : List (Command θ κ ν ε)) (ending : Ending ν ε) : System θ κ ν ε :=
  match c.claim me key with
  | (.hit v, c) | (.reentrant (some v), c) => s.put me (t.answered key (.value v)) c
  | (.reentrant none, c) => s.put me (t.answered key .cycle) c
  | (.wait f, c) => s.put me { t with stage := .waiting ⟨key, body, ending, f⟩ } c
  | (.load f, c) =>
    s.put me ({ t with frames := ⟨some ⟨key, f, ending⟩, body⟩ :: t.frames }.log (.load key)) c

/-- Fills the slot of a load that has a result, and empties that of any other. -/
def storeEnding (c : SingleFlight θ κ ν ε) (l : Load κ ν ε) : SingleFlight θ κ ν ε :=
  match l.ending with
  | .value v => c.store l.key l.flight (.ok v)
  | .error e => c.store l.key l.flight (.error e)
  | .panic => c.detach l.key l.flight

def finishEnding (c : SingleFlight θ κ ν ε) (l : Load κ ν ε) : SingleFlight θ κ ν ε :=
  match l.ending with
  | .value v => c.finish l.flight (.ok v)
  | .error e => c.finish l.flight (.error e)
  | .panic => c.giveUp l.flight

/-- Ends the innermost load as far as its slot goes. -/
def endLoad (s : System θ κ ν ε) (me : θ) (t : Thread θ κ ν ε) (f : Frame θ κ ν ε) :
    System θ κ ν ε :=
  let popped := { t with frames := t.frames.drop 1 }
  match f.load with
  | none => s.put me popped s.cache
  | some l => s.put me { popped with stage := .telling l } (storeEnding s.cache l)

/-- Tells those who wait for a load how it ended, and answers its own request. -/
def tell (s : System θ κ ν ε) (me : θ) (t : Thread θ κ ν ε) (l : Load κ ν ε) : System θ κ ν ε :=
  s.put me (t.answered l.key (.ofEnding l.ending)) (finishEnding s.cache l)

def threadIsDone (s : System θ κ ν ε) (thread : θ) : Bool :=
  (s.threads.get? thread).all Thread.isDone

def execute (s : System θ κ ν ε) (me : θ) (t : Thread θ κ ν ε) (command : Command θ κ ν ε) :
    System θ κ ν ε :=
  let c := s.cache
  let next := t.advance
  match command with
  | .get key body ending => s.request me next c key body ending
  | .publish v =>
    s.put me (next.log .publish) (match t.flight? with
      | some f => c.publish f v
      | none => c)
  | .peek key => s.put me (next.log (.peek key (c.get? key))) c
  | .invalidate key => s.put me (next.log (.invalidate key (c.get? key))) (c.invalidate key)
  | .clear => s.put me (next.log .clear) c.clear
  | .keys => s.put me (next.log (.keys c.keys)) c
  | .await keys => if keys.all fun k => (c.loadOf? k).isSome then s.put me next c else s
  | .fork thread commands =>
    if s.threads.contains thread then s.put me next c
    else (s.put me next c).put thread (.start commands) c
  | .join thread => if s.threadIsDone thread then s.put me (next.log (.join thread)) c else s

/-- A waiting thread goes on when its flight has ended. If that flight was abandoned it first stops
waiting, and asks again in its next step. -/
def resume (s : System θ κ ν ε) (me : θ) (t : Thread θ κ ν ε) (p : Pending θ κ ν ε) :
    System θ κ ν ε :=
  match s.cache.flights.get? p.flight with
  | none => s
  | some f =>
    match f.state with
    | .running => s
    | .done result => s.put me (t.answered p.key (.ofResult result)) (s.cache.awaken me)
    | .abandoned => s.put me (t.askAgain p) (s.cache.awaken me)

/-- One step of one thread, if it has one to make. -/
def step (s : System θ κ ν ε) (me : θ) : System θ κ ν ε :=
  match s.threads.get? me with
  | none => s
  | some t =>
    match t.stage with
    | .waiting p => s.resume me t p
    | .telling l => s.tell me t l
    | .ready =>
      match t.frames with
      | [] => s
      | f :: _ =>
        match f.commands with
        | command :: _ => s.execute me t command
        | [] => s.endLoad me t f

def isDone (s : System θ κ ν ε) : Bool := s.threads.all fun t => t.2.isDone

/-- Every thread makes a step in turn, until all are done or the rounds are used up. -/
def run : (rounds : Nat) → System θ κ ν ε → System θ κ ν ε
  | 0, s => s
  | rounds + 1, s => if s.isDone then s else run rounds (s.threads.keys.foldl step s)

end System

mutual
/-- How many steps a command can take when it does not have to wait. -/
def Command.size : Command θ κ ν ε → Nat
  | .get _ body _ => sizeAll body + 4
  | .fork _ commands => sizeAll commands + 2
  | _ => 1

def sizeAll : List (Command θ κ ν ε) → Nat
  | [] => 0
  | c :: cs => c.size + sizeAll cs
end

/-- Runs one thread, and the threads it forks, on an empty cache. While threads are left that do not
wait for ever, every round has a step; an abandoned load makes those who wait for it ask again. -/
def runThread [DecidableEq θ] [DecidableEq κ] (name : θ) (commands : List (Command θ κ ν ε)) :
    System θ κ ν ε :=
  let steps := sizeAll commands + 1
  System.run (steps * steps) ⟨.empty, [(name, .start commands)]⟩

end Cascade.SingleFlight
