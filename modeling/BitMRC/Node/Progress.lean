import BitMRC.Node.NewPeers
import BitMRC.Node.Streams

/-!
# Announcements arrive

An announcement does not stay on its way.  When their loops are not left, the threads that deliver
it can go on whenever something is left to deliver, and they come to a stop in whatever order they
take turns, so that in the end the peer was told of everything.
-/

namespace BitMRC

open Foundation UString

variable {platform : Platform}

namespace Running

/-! ## The threads that deliver -/

/-- A step of `listen_inv`, of `listen_packets` or of `Sender`, but no empty round. -/
def Label.Delivering (k : Nat) (running : Running) : Label → Prop
  | .gather _ | .flush _ | .pop _ | .lock | .push _ _ | .unlock => True
  | .finish => running.gathering ≠ []
  | .send _ .fail => False
  | .send j _ => j = k
  | _ => False

structure Delivers (platform : Platform) (k : Nat) (running : Running) (label : Label)
    (after : Running) : Prop where
  step : Step platform running label after
  delivering : label.Delivering k running

theorem Label.Delivering.send {j k : Nat} {act : Peer.SenderAct} {running : Running}
    (delivering : (Label.send j act).Delivering k running) : j = k ∧ act ≠ .fail := by
  cases act with
  | fail => exact delivering.elim
  | _ => exact ⟨delivering, nofun⟩

/-! ### They stop -/

end Running

/-- The steps up to `send`. -/
def InvPhase.left : InvPhase → Nat
  | .gathering inventory => if inventory = [] then 0 else 2
  | .flushing _ => 1
  | .ended => 0

/-- The steps up to `unlock`. -/
def PacketPhase.left (peers : Nat) : PacketPhase → Nat
  | .waiting => 0
  | .popped _ => peers + 2
  | .pushing _ i => peers - i + 1
  | .ended => 0

/-- The steps up to the next `pop`. -/
def SenderPhase.left : SenderPhase → Nat
  | .off | .popping => 0
  | .polling => 1
  | .sending calls => calls.length + 2

namespace Running

/-- `start` has set `running`, and neither `listen_inv` nor `listen_packets` has read it before. -/
structure Loops (running : Running) : Prop where
  on : running.running = true
  inv : running.inv ≠ .ended
  packets : running.packets ≠ .ended

/-- From then on these loops are not left. -/
theorem Step.loops {self after : Running} {label : Label} (step : Step platform self label after)
    (loops : self.Loops) : after.Loops := by
  obtain ⟨on, inv, packets⟩ := loops
  cases step with
  | started => exact ⟨rfl, inv, packets⟩
  | endInv _ off => cases on.symm.trans off
  | endPackets _ off => cases on.symm.trans off
  | gather | finish | flush => exact ⟨on, nofun, packets⟩
  | pop | lock | push | unlock => exact ⟨on, inv, nofun⟩
  | _ => exact ⟨on, inv, packets⟩

/-- The connection is accepted, and all that is left to deliver can be. -/
structure Live (platform : Platform) (k : Nat) (running : Running) : Prop where
  ready : running.Ready
  holdsReceived : ∀ peer ∈ running.peers, peer.HoldsReceived
  reachable : System.Reachable platform running.sys
  accepted : ∃ peer, running.peers[k]? = some peer ∧ peer.conn.state = 2 ∧ peer.sender ≠ .off
  few : (running.gathering ++ running.sys.node.newInv).length * 32 + 9 < intLimit
  loops : running.Loops

/-- Nothing is announced meanwhile. -/
theorem Delivers.quiet {k : Nat} {self after : Running} {label : Label}
    (moved : Delivers platform k self label after) : label.announced platform = [] := by
  have delivering := moved.delivering
  cases label with
  | operate => exact delivering.elim
  | pow => exact delivering.elim
  | listen => exact delivering.elim
  | _ => rfl

theorem Delivers.tags {k : Nat} {self after : Running} {label : Label}
    (moved : Delivers platform k self label after) :
    label.flushed ++ (after.gathering ++ after.sys.node.newInv) =
      self.gathering ++ self.sys.node.newInv := by
  have total := (@newInv_conserves platform).comp gathering_conserves moved.step
  dsimp only at total
  rw [total, moved.quiet, List.append_nil]

theorem Delivers.short {k : Nat} {self after : Running} {label : Label}
    (moved : Delivers platform k self label after)
    (few : (self.gathering ++ self.sys.node.newInv).length * 32 + 9 < intLimit) :
    label.Short := by
  have total := congrArg List.length moved.tags
  rw [List.length_append] at total
  cases label with
  | flush inventory =>
      simp only [Label.flushed] at total
      simp only [Label.Short]
      omega
  | _ => trivial

theorem Live.step {k : Nat} {self after : Running} {label : Label} (live : Live platform k self)
    (moved : Delivers platform k self label after) : Live platform k after := by
  obtain ⟨ready, holdsReceived, reachable, ⟨peer, here, state, on⟩, few, loops⟩ := live
  have step := moved.step
  refine ⟨ready.step reachable holdsReceived (moved.short few) step,
    step.keeps Peer.keeps_holdsReceived holdsReceived, ?_, ?_, ?_, step.loops loops⟩
  · rcases step.system with same | ⟨event, system⟩
    · rwa [same]
    · exact reachable.step system
  · cases step.touches k with
    | alone same => exact ⟨peer, same.trans here, state, on⟩
    | started absent => cases absent.symm.trans here
    | @moved _ next act found there named step =>
        cases found.symm.trans here
        refine ⟨next, there, ?_⟩
        cases step with
        | push => exact ⟨state, on⟩
        | @send _ _ act sends =>
            have delivering := moved.delivering
            rw [Label.eq_send named] at delivering
            cases sends with
            | stop => exact absurd rfl delivering.send.2
            | fail => exact absurd rfl delivering.send.2
            | _ => exact ⟨state, nofun⟩
        | listen =>
            rw [Label.eq_listen named] at moved
            exact moved.delivering.elim
  · have total := congrArg List.length moved.tags
    rw [List.length_append] at total
    omega

/-- Where they stop, nothing is left to deliver. -/
theorem Live.stopped {k : Nat} {running : Running} (live : Live platform k running)
    (draws : Draws platform) (stopped : Stopped (Delivers platform k) running) :
    running.pending k = [] ∧ running.view k (fun peer => peer.sender.unwritten) = [] := by
  obtain ⟨peer, here, state, on⟩ := live.accepted
  have inv : running.gathering = [] ∧ running.sys.node.newInv = [] := by
    rw [gathering]
    cases phase : running.inv with
    | gathering inventory =>
        cases queued : running.sys.node.newInv with
        | cons tag rest =>
            exact absurd ⟨.gather phase queued fun _ => live.loops.on, trivial⟩
              (stopped (.gather tag) _)
        | nil =>
            refine ⟨?_, rfl⟩
            by_contra held
            refine stopped .finish _ ⟨.finish phase queued fun _ => live.loops.on, ?_⟩
            rw [Label.Delivering, gathering, phase]
            exact held
    | flushing inventory =>
        exact absurd ⟨@Step.flush platform _ draws _ phase, trivial⟩
          (stopped (.flush inventory) _)
    | ended => exact absurd phase live.loops.inv
  have packets : running.packets = .waiting ∧ running.sys.node.newPackets = [] := by
    cases phase : running.packets with
    | waiting =>
        cases queued : running.sys.node.newPackets with
        | cons packet rest =>
            exact absurd ⟨.pop phase queued live.loops.on, trivial⟩ (stopped (.pop packet) _)
        | nil => exact ⟨rfl, rfl⟩
    | popped packet => exact absurd ⟨.lock phase, trivial⟩ (stopped .lock _)
    | pushing packet i =>
        by_cases last : running.peers.length ≤ i
        · exact absurd ⟨.unlock phase last, trivial⟩ (stopped .unlock _)
        · have next := List.getElem?_eq_getElem (Nat.lt_of_not_le last)
          exact absurd ⟨.push phase next, trivial⟩ (stopped (.push packet i) _)
    | ended => exact absurd phase live.loops.packets
  have sender : peer.sender = .popping ∧ peer.conn.packets = [] := by
    cases phase : peer.sender with
    | off => exact absurd phase on
    | polling =>
        exact absurd ⟨.send here (.poll phase state), rfl⟩
          (stopped (.send k .poll) _)
    | popping =>
        cases queued : peer.conn.packets with
        | nil => exact ⟨rfl, rfl⟩
        | cons packet rest =>
            have sendable := live.ready.queued k peer here packet
              (by rw [queued]; exact List.mem_cons_self)
            obtain ⟨calls, sends, _⟩ := sendable.exists_sendCalls
            exact absurd ⟨.send here (.pop phase queued sends), rfl⟩
              (stopped (.send k (.pop packet)) _)
    | sending calls =>
        cases calls with
        | nil =>
            exact absurd ⟨.send here (.done phase), rfl⟩
              (stopped (.send k .done) _)
        | cons call rest =>
            exact absurd ⟨.send here (.write phase), rfl⟩
              (stopped (.send k (.write call)) _)
  constructor
  · rw [pending, queue, view_eq here, sender.2, handing, packets.1, packets.2, inv.1, inv.2]
    rfl
  · rw [view_eq here, sender.1]
    rfl

/-! ## What the peer is told in the end -/

/-- Steps of the three threads while the connection is up. -/
def DeliversLive (platform : Platform) (k : Nat) (self : Running) (label : Label)
    (after : Running) : Prop :=
  Live platform k self ∧ True ∧ Delivers platform k self label after

theorem Live.deliversLive {k : Nat} {self after : Running} {trace : List (Running × Label)}
    (live : Live platform k self) (run : Run (Delivers platform k) self trace after) :
    Run (DeliversLive platform k) self trace after ∧ Live platform k after :=
  Run.restrict live (fun _ _ _ live _ moved => live.step moved) run fun _ _ => trivial

theorem DeliversLive.watched {k : Nat} {self after : Running} {label : Label}
    (works : DeliversLive platform k self label after) : Watched platform k self label after := by
  obtain ⟨live, _, moved⟩ := works
  obtain ⟨peer, here, _⟩ := live.accepted
  exact ⟨(List.getElem?_eq_some_iff.mp here).1, moved.short live.few, moved.step⟩

theorem Live.told {k : Nat} {self after : Running} {trace : List (Running × Label)}
    (live : Live platform k self) (draws : Draws platform)
    (run : Run (Delivers platform k) self trace after)
    (stopped : Stopped (Delivers platform k) after) :
    along (fun _ label => label.told k) trace = self.pending k := by
  obtain ⟨works, reached⟩ := live.deliversLive run
  have conserves : Conserves (DeliversLive platform k) (pending k) (fun _ _ => [])
      (fun _ label => label.told k) := by
    intro self label after moved
    have total := pending_conserves k moved.watched
    dsimp only at total ⊢
    rwa [moved.2.2.quiet] at total
  have total := conserves.run works
  rw [(reached.stopped draws stopped).1, List.append_nil] at total
  rw [total, along, List.flatMap_eq_nil_iff.mpr fun _ _ => rfl, List.append_nil]

/-- The tag that the node with one object has to announce. -/
theorem Session.few {verack : Packet} {conn : Connection} {trace : List (Running × Label)}
    {reached : Running} (session : Session Node.sampleStored verack conn trace reached) :
    (reached.gathering ++ reached.sys.node.newInv).length * 32 + 9 < intLimit := by
  have one : (reached.gathering ++ reached.sys.node.newInv).length = 1 := by
    rw [gathering, session.inv, session.sys]
    rfl
  rw [one]
  decide

theorem Session.loops {node : Node} {verack : Packet} {conn : Connection}
    {trace : List (Running × Label)} {reached : Running}
    (session : Session node verack conn trace reached) : reached.Loops :=
  ⟨session.on, by rw [session.inv]; nofun, by rw [session.packets]; nofun⟩

end Running

/-! ## What the peer reads in the end -/

namespace Peer

/-- `Sender` runs once the connection is up. -/
def Started (self : Peer) : Prop :=
  self.sender = .off → self.listener = .resolving ∨ self.listener = .connecting

theorem Step.started {k : Nat} {self after : Peer} {act : Act}
    (step : Step platform k self act after) (calm : act.Calm self) (started : self.Started) :
    after.Started := by
  have runs {phase : ListenerPhase} (here : self.listener = phase) (resolved : phase ≠ .resolving)
      (connected : phase ≠ .connecting) : self.sender ≠ .off := by
    intro off
    rcases started off with resolving | connecting
    · exact resolved (here.symm.trans resolving)
    · exact connected (here.symm.trans connecting)
  cases step with
  | push => exact started
  | send step =>
      cases step with
      | stop => exact absurd rfl calm.sends
      | fail => exact absurd rfl calm.sends
      | _ => exact fun off => nomatch off
  | listen step =>
      cases step with
      | resolve => exact fun _ => .inr rfl
      | connect => exact fun off => nomatch off
      | unreachable => exact absurd rfl calm.listens
      | fail => exact absurd rfl calm.listens
      | write phase | done phase | pong phase | version phase | verack phase | collect phase
      | tell phase | accept phase | inv phase | check phase | request phase | getdata phase
      | answer phase | answered phase | addr phase | introduce phase | introduced phase
      | object phase | refuse phase | leave phase | announce phase | handle phase | other phase =>
          exact fun off => absurd off (runs phase nofun nofun)

end Peer

namespace Running

/-- The steps of the three threads neither fail nor answer anything. -/
theorem Delivers.calm {k : Nat} {self after : Running} {label : Label}
    (moved : Delivers platform k self label after) : Allows k Peer.Act.Calm self label := by
  have delivering := moved.delivering
  intro peer act here named
  cases act with
  | push => exact ⟨nofun, nofun, nofun⟩
  | send sent =>
      rw [Label.eq_send named] at delivering
      refine ⟨?_, nofun, nofun⟩
      rintro ⟨⟩
      exact delivering.send.2 rfl
  | listen =>
      rw [Label.eq_listen named] at delivering
      exact delivering.elim

theorem Live.short {k : Nat} {self after : Running} {trace : List (Running × Label)}
    (live : Live platform k self) (run : Run (Delivers platform k) self trace after) :
    ∀ taken ∈ trace, Label.Short taken.2 := by
  intro taken member
  obtain ⟨next, live, _, moved⟩ := (live.deliversLive run).1.taken taken member
  exact moved.short live.few

/-- Where the three threads stop, neither thread of the connection is writing. -/
theorem Live.written {k : Nat} {running : Running} {trace : List (Running × Label)}
    (live : Live platform k running) (streams : Streams k trace running) (draws : Draws platform)
    (stopped : Stopped (Delivers platform k) running) :
    running.view k Peer.unwritten = [] := by
  obtain ⟨peer, here, state, _⟩ := live.accepted
  have sender := (live.stopped draws stopped).2
  rw [view_eq here] at sender ⊢
  have listener : peer.listener.unwritten = [] := by
    cases phase : peer.listener with
    | writing calls next =>
        have front : peer.listener.Greets := by rw [phase]; trivial
        exact absurd state ((streams.apart peer here).greets front)
    | _ => rfl
  rw [Peer.unwritten, listener, sender]
  rfl

end Running

end BitMRC
