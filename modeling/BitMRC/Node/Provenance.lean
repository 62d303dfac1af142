import BitMRC.Node.Answers
import BitMRC.Node.NewPeers
import BitMRC.Node.Streams

/-!
# Where packets come from

A node makes nothing up: it announces and sends only objects that it stores, asks a peer only
for what this peer has offered, and repeats only what was sent to it.  Every thread
keeps this of what it holds, so it is true of all that a peer can read.
-/

namespace BitMRC

open Foundation UString

variable {platform : Platform}

/-- All that is listed has a shared object. -/
theorem Node.Sound.hasTag_inventory {self : Node} (sound : self.Sound platform) {tag : Block 32}
    (listed : tag ∈ self.inventory platform) : self.hasTag platform tag = true := by
  obtain ⟨cur, member, rfl⟩ := List.mem_map.mp listed
  obtain ⟨i, _, inside⟩ := List.mem_flatMap.mp member
  rw [(sound.addressed i cur inside).hash_eq, platform.cBytes_block]
  exact hasTag_iff.mpr ⟨cur.info, ⟨i, cur, inside, rfl⟩, rfl⟩

namespace Running

/-! ## Announced tags -/

/-- What listeners are about to announce is stored, and so is what is announced. -/
structure Truthful (platform : Platform) (running : Running) : Prop where
  inserted : ∀ payload, running.Inserted payload → running.sys.node.sharedObj.Stored payload
  newInv : ∀ tag ∈ running.sys.node.newInv, running.sys.node.hasTag platform tag = true
  gathering : ∀ tag ∈ running.gathering, running.sys.node.hasTag platform tag = true

theorem Truthful.step {self after : Running} {label : Label} (truthful : self.Truthful platform)
    (sound : self.sys.node.Sound platform) (step : Step platform self label after) :
    after.Truthful platform := by
  have kept {tags : List (Block 32)}
      (named : ∀ tag ∈ tags, self.sys.node.hasTag platform tag = true) :
      ∀ tag ∈ tags, after.sys.node.hasTag platform tag = true :=
    fun tag member => step.hasTag sound (named tag member)
  constructor
  · intro payload inserted
    rcases step.inserted_before inserted with before | stored
    · exact step.stored sound (truthful.inserted _ before)
    · exact stored
  · intro tag member
    have total := newInv_conserves step
    dsimp only at total
    have here : tag ∈ self.sys.node.newInv ++ label.announced platform := by
      rw [← total]
      exact List.mem_append_right _ member
    rcases List.mem_append.mp here with old | new
    · exact kept truthful.newInv tag old
    · exact step.announced truthful.inserted tag new
  · intro tag member
    have total := gathering_conserves step
    dsimp only at total
    have here : tag ∈ self.gathering ++ label.gathered := by
      rw [← total]
      exact List.mem_append_right _ member
    rcases List.mem_append.mp here with old | new
    · exact kept truthful.gathering tag old
    · refine kept truthful.newInv tag ?_
      cases step with
      | gather phase queued =>
          rw [List.mem_singleton.mp new, queued]
          exact List.mem_cons_self
      | _ => cases new

/-! ## Packets -/

/-- What the peer of connection `k` may be sent when the node has come this far. -/
inductive Accounted (platform : Platform) (k : Nat) (trace : List (Running × Label))
    (running : Running) : UString × UString → Prop
  /-- The version of this node. -/
  | greeting {memory version : PacketVersion} {now : Int64} {ip : Block 4} {port : UInt16}
      (greeting : PacketVersion.greeting memory now ip port = .ok version) :
      Accounted platform k trace running version.toPacket.content
  /-- A `pong` or a `verack` is what the peer has sent itself. -/
  | repeated {packet : Packet} (received : ∃ taken ∈ trace, taken.2 = .listen k (.receive packet))
      (name : cStr packet.command.toUString = pongName ∨
        cStr packet.command.toUString = verackName) :
      Accounted platform k trace running packet.content
  | addresses : Accounted platform k trace running (addrName, [0])
  /-- Addresses are what some peer has sent. -/
  | passed {packet : Packet} {j : Nat}
      (received : ∃ taken ∈ trace, taken.2 = .listen j (.receive packet))
      (name : cStr packet.command.toUString = addrName) :
      Accounted platform k trace running packet.content
  | announcement {tags : List (Block 32)} (short : tags.length * 32 + 9 < intLimit)
      (stored : ∀ tag ∈ tags, running.sys.node.hasTag platform tag = true) :
      Accounted platform k trace running (invName, inventoryPayload tags)
  /-- Only what the peer has offered is asked for. -/
  | request {tags : List (Block 32)} (short : tags.length * 32 + 9 < intLimit)
      (offered : ∀ tag ∈ tags,
        tag ∈ along (fun _ label => label.on k (Peer.Act.received invName)) trace) :
      Accounted platform k trace running (getdataName, inventoryPayload tags)
  | object {objPayload : UString} (stored : running.sys.node.sharedObj.Stored objPayload) :
      Accounted platform k trace running (objectName, objPayload)

/-- A longer run in which no object is lost accounts for the same packets. -/
theorem Accounted.more {k : Nat} {trace : List (Running × Label)} {self after : Running}
    {content : UString × UString} (accounted : Accounted platform k trace self content)
    (taken : Running × Label)
    (stored : ∀ payload, self.sys.node.sharedObj.Stored payload →
      after.sys.node.sharedObj.Stored payload) :
    Accounted platform k (trace ++ [taken]) after content := by
  have tagged {tag : Block 32} (named : self.sys.node.hasTag platform tag = true) :
      after.sys.node.hasTag platform tag = true := by
    obtain ⟨payload, held, same⟩ := Node.hasTag_iff.mp named
    exact Node.hasTag_iff.mpr ⟨payload, stored payload held, same⟩
  have later {label : Label} (received : ∃ taken ∈ trace, taken.2 = label) :
      ∃ earlier ∈ trace ++ [taken], earlier.2 = label := by
    obtain ⟨earlier, member, same⟩ := received
    exact ⟨earlier, List.mem_append_left _ member, same⟩
  cases accounted with
  | greeting greeting => exact .greeting greeting
  | repeated received name => exact .repeated (later received) name
  | addresses => exact .addresses
  | passed received name => exact .passed (later received) name
  | announcement short named =>
      exact .announcement short fun tag member => tagged (named tag member)
  | request short offered =>
      refine .request short fun tag member => ?_
      rw [along_append]
      exact List.mem_append_left _ (offered tag member)
  | object held => exact .object (stored _ held)

end Running

/-! ### What a listener holds -/

/-- The tags that the listener tells the peer of. -/
def ListenerPhase.inventory : ListenerPhase → List (Block 32)
  | .telling inventory _ => inventory
  | .writing _ next => next.inventory
  | _ => []

namespace Peer

/-- It tells of what is stored when it looks. -/
theorem Listen.inventory {k : Nat} {sys sys' : System} {self after : Peer} {act : ListenerAct}
    {spawned : List Peer} (step : Listen platform k sys self act sys' after spawned) :
    ∀ tag ∈ after.listener.inventory,
      tag ∈ self.listener.inventory ∨ tag ∈ sys.node.inventory platform := by
  intro tag member
  cases step with
  | write phase => exact .inl (by rw [phase]; exact member)
  | done phase => exact .inl (by rw [phase]; exact member)
  | collect => exact .inr member
  | tell phase =>
      refine .inl ?_
      rw [phase]
      simp only [ListenerPhase.inventory] at member
      split at member
      next => cases member
      next => exact member
  | version => exact .inl member
  | refuse => exact .inl member
  | announce => exact .inl member
  | other => exact .inl member
  | _ => cases member

/-- What a listener checks or asks for was offered before or with this step. -/
theorem Tracks.checking {self after : Peer} {act : Act} (tracks : Tracks self act after) :
    ∀ tag ∈ after.offered ++ after.needed,
      tag ∈ self.offered ++ self.needed ∨ tag ∈ act.received invName := by
  have checked {tag : Block 32} (member : tag ∈ act.checks.map Prod.fst ++ after.offered) :
      tag ∈ self.offered ++ self.needed ∨ tag ∈ act.received invName := by
    rw [tracks.offered] at member
    exact (List.mem_append.mp member).imp_left (List.mem_append_left _)
  intro tag member
  rcases List.mem_append.mp member with offered | needed
  · exact checked (List.mem_append_right _ offered)
  · have here : tag ∈ self.needed ++ act.checks.flatMap missing := by
      rw [← tracks.needed]
      exact List.mem_append_right _ needed
    rcases List.mem_append.mp here with old | new
    · exact .inl (List.mem_append_right _ old)
    · obtain ⟨⟨checkedTag, present⟩, check, absent⟩ := List.mem_flatMap.mp new
      refine checked (List.mem_append_left _ ?_)
      cases present with
      | true => cases absent
      | false =>
          rw [List.mem_singleton.mp absent]
          exact List.mem_map_of_mem check

end Peer

/-- A part of the tags from `i` on. -/
theorem Node.mem_of_fillInv {inventory : List (Block 32)} {i : Nat} {tag : Block 32}
    (member : tag ∈ (fillInv inventory i).1) : tag ∈ inventory := by
  refine List.mem_of_mem_drop (i := i) ?_
  rw [fillInv_drop]
  exact List.mem_append_left _ member

namespace Running

/-- What a step starts to write is accounted for. -/
theorem contents_accounted {k : Nat} {trace : List (Running × Label)} {self after : Running}
    {label : Label} {peer peer' : Peer} {act : Peer.Act} (named : label.act? k = some act)
    (step : Peer.Step platform k peer act peer')
    (queued : ∀ packet ∈ peer.conn.packets,
      Accounted platform k (trace ++ [(self, label)]) after packet.content)
    (listed : ∀ tag ∈ peer.listener.inventory, after.sys.node.hasTag platform tag = true) :
    ∀ content ∈ act.contents, Accounted platform k (trace ++ [(self, label)]) after content := by
  intro content member
  cases step with
  | push => cases member
  | send step =>
      cases step with
      | pop waiting first =>
          rw [List.mem_singleton.mp member]
          exact queued _ (by rw [first]; exact List.mem_cons_self)
      | _ => cases member
  | @listen _ _ _ _ listened _ step =>
      have heard {packet : Packet} (same : listened = .receive packet) :
          ∃ taken ∈ trace ++ [(self, label)], taken.2 = .listen k (.receive packet) :=
        ⟨_, List.mem_append_right _ (List.mem_singleton_self _),
          same ▸ Label.eq_listen named⟩
      cases step with
      | connect phase greeting =>
          rw [List.mem_singleton.mp member]
          exact .greeting greeting
      | @tell _ draws inventory i calls phase =>
          have few := Node.fillInv_length inventory i
          rw [List.mem_singleton.mp member]
          refine .announcement ?_ fun tag inside => listed tag ?_
          · simp only [intLimit]
            omega
          · rw [phase]
            exact Node.mem_of_fillInv inside
      | pong _ _ name =>
          simp only [Peer.Act.contents, if_pos name] at member
          rw [List.mem_singleton.mp member]
          exact .repeated (heard rfl) (.inl name)
      | verack _ _ name =>
          have other : (verackName : UString) ≠ pongName := by decide
          simp only [Peer.Act.contents, name, if_neg other, if_pos] at member
          rcases List.mem_cons.mp member with rfl | last
          · exact .repeated (heard rfl) (.inr name)
          · rw [List.mem_singleton.mp last]
            exact .addresses
      | version _ _ name | inv _ _ name | getdata _ _ name | addr _ _ name | object _ _ name
      | refuse _ _ name =>
          rw [Peer.Act.contents_silent name (by decide) (by decide)] at member
          cases member
      | other _ _ unknown =>
          simp only [List.mem_cons, not_or] at unknown
          rw [Peer.Act.contents_silent rfl unknown.1 unknown.2.2.1] at member
          cases member
      | _ => cases member

/-- All that is on its way to the peer of connection `k`, and all that was sent to it, is
accounted for. -/
structure Accounts (platform : Platform) (k : Nat) (trace : List (Running × Label))
    (running : Running) : Prop where
  truthful : running.Truthful platform
  holdsReceived : ∀ peer ∈ running.peers, peer.HoldsReceived
  carries : running.Carries fun packet => Accounted platform k trace running packet.content
  queued : ∀ peer, running.peers[k]? = some peer → ∀ packet ∈ peer.conn.packets,
    Accounted platform k trace running packet.content
  listed : ∀ peer, running.peers[k]? = some peer → ∀ tag ∈ peer.listener.inventory,
    running.sys.node.hasTag platform tag = true
  offered : ∀ peer, running.peers[k]? = some peer → ∀ tag ∈ peer.offered ++ peer.needed,
    tag ∈ along (fun _ label => label.on k (Peer.Act.received invName)) trace
  started : ∀ content ∈ along (fun _ label => label.on k Peer.Act.contents) trace,
    Accounted platform k trace running content

namespace Accounts

variable {k : Nat} {trace : List (Running × Label)} {self after : Running} {label : Label}

/-- No step takes an object out of the table. -/
theorem kept (sound : self.sys.node.Sound platform) (step : Step platform self label after)
    {content : UString × UString} (accounted : Accounted platform k trace self content) :
    Accounted platform k (trace ++ [(self, label)]) after content :=
  accounted.more _ fun _ stored => step.stored sound stored

theorem carries_step (accounts : Accounts platform k trace self)
    (sound : self.sys.node.Sound platform) (short : label.Short)
    (step : Step platform self label after) :
    after.Carries fun packet =>
      Accounted platform k (trace ++ [(self, label)]) after packet.content := by
  have before : self.Carries fun packet =>
      Accounted platform k (trace ++ [(self, label)]) after packet.content :=
    ⟨fun packet member => kept sound step (accounts.carries.newPackets packet member),
      fun packet phase => kept sound step (accounts.carries.popped packet phase),
      fun packet i phase => kept sound step (accounts.carries.pushing packet i phase)⟩
  refine before.step step ?_ ?_
  · rintro draws inventory rfl
    rw [Node.invPacket_content]
    refine .announcement short fun tag member => step.hasTag sound ?_
    cases step with
    | flush phase => exact accounts.truthful.gathering tag (by rw [gathering, phase]; exact member)
  · intro j packet same _ name
    exact @Accounted.passed platform k _ after packet j
      ⟨_, List.mem_append_right _ (List.mem_singleton_self _), same⟩ name

theorem queued_step (accounts : Accounts platform k trace self)
    (sound : self.sys.node.Sound platform) {map : ContentMap UString}
    (addressed : self.sys.node.ContentAddressed platform map)
    (step : Step platform self label after) :
    ∀ peer, after.peers[k]? = some peer → ∀ packet ∈ peer.conn.packets,
      Accounted platform k (trace ++ [(self, label)]) after packet.content := by
  intro peer found packet member
  cases step.touches k with
  | alone same =>
      exact kept sound step (accounts.queued peer (same.symm.trans found) packet member)
  | started absent new =>
      cases new.symm.trans found
      cases member
  | @moved before _ act here there named moved =>
      cases there.symm.trans found
      have old {packet : Packet} (member : packet ∈ before.conn.packets) :
          Accounted platform k (trace ++ [(self, label)]) after packet.content :=
        kept sound step (accounts.queued before here packet member)
      cases moved with
      | push _ pushed =>
          rcases List.mem_append.mp member with earlier | last
          · exact old earlier
          · rw [List.mem_singleton.mp last]
            obtain rfl := Label.eq_push named
            have phase : self.packets = .pushing pushed k := by
              cases step with
              | push phase => exact phase
            exact kept sound step (accounts.carries.pushing _ k phase)
      | send sent =>
          cases sent with
          | pop waiting first => exact old (by rw [first]; exact List.mem_cons_of_mem _ member)
          | _ => exact old member
      | listen listened =>
          cases listened with
          | @request _ draws needed phase =>
              rcases List.mem_append.mp member with earlier | last
              · exact old earlier
              · split at last
                next => cases last
                next =>
                  have holdsReceived := accounts.holdsReceived before (List.mem_of_getElem? here)
                  simp only [Peer.HoldsReceived, phase, List.length_nil,
                    Nat.zero_add] at holdsReceived
                  rw [List.mem_singleton.mp last, Node.getdata_content]
                  refine .request ?_ fun tag inside => ?_
                  · simp only [intLimit] at holdsReceived ⊢
                    omega
                  · rw [along_append]
                    refine List.mem_append_left _ (accounts.offered before here tag ?_)
                    rw [Peer.needed, phase]
                    exact List.mem_append_right _ inside
          | @answer _ draws tag asked objPayload phase lookup =>
              rcases List.mem_append.mp member with earlier | last
              · exact old earlier
              · split at last
                next => cases last
                next nonempty =>
                  rw [List.mem_singleton.mp last, Node.objectPacket_content]
                  rcases (step.truthful addressed).1 k tag objPayload (Label.eq_listen named) with
                    ⟨_, stored, _⟩ | ⟨empty, _⟩
                  · exact .object (step.stored sound stored)
                  · exact absurd empty nonempty
          | _ => exact old member

theorem listed_step (accounts : Accounts platform k trace self)
    (sound : self.sys.node.Sound platform) (step : Step platform self label after) :
    ∀ peer, after.peers[k]? = some peer → ∀ tag ∈ peer.listener.inventory,
      after.sys.node.hasTag platform tag = true := by
  intro peer here tag member
  refine step.hasTag sound ?_
  rcases step.listener_cases here with ⟨before, there, same⟩ | fresh |
    ⟨before, act, spawned, there, named, listen⟩
  · exact accounts.listed before there tag (same ▸ member)
  · rw [fresh] at member
    cases member
  · rcases listen.inventory tag member with old | new
    · exact accounts.listed before there tag old
    · exact sound.hasTag_inventory new

theorem offered_step (accounts : Accounts platform k trace self)
    (step : Step platform self label after) :
    ∀ peer, after.peers[k]? = some peer → ∀ tag ∈ peer.offered ++ peer.needed,
      tag ∈ along (fun _ label => label.on k (Peer.Act.received invName))
        (trace ++ [(self, label)]) := by
  intro peer found tag member
  rw [along_append, along_singleton]
  cases step.touches k with
  | alone same =>
      exact List.mem_append_left _ (accounts.offered peer (same.symm.trans found) tag member)
  | started absent new =>
      cases new.symm.trans found
      cases member
  | moved here there named moved =>
      cases there.symm.trans found
      have tracks := moved.tracks (accounts.holdsReceived _ (List.mem_of_getElem? here))
      rcases tracks.checking tag member with old | new
      · exact List.mem_append_left _ (accounts.offered _ here tag old)
      · refine List.mem_append_right _ ?_
        rw [Label.on, named]
        exact new

theorem started_step (accounts : Accounts platform k trace self)
    (sound : self.sys.node.Sound platform) (step : Step platform self label after) :
    ∀ content ∈ along (fun _ label => label.on k Peer.Act.contents) (trace ++ [(self, label)]),
      Accounted platform k (trace ++ [(self, label)]) after content := by
  intro content member
  rw [along_append, along_singleton] at member
  rcases List.mem_append.mp member with old | new
  · exact kept sound step (accounts.started content old)
  · cases step.touches k with
    | alone _ none =>
        rw [Label.on, none] at new
        cases new
    | started _ _ none =>
        rw [Label.on, none] at new
        cases new
    | moved here there named moved =>
        rw [Label.on, named] at new
        exact contents_accounted named moved
          (fun packet queued => kept sound step (accounts.queued _ here packet queued))
          (fun tag listed => step.hasTag sound (accounts.listed _ here tag listed)) content new

theorem step (accounts : Accounts platform k trace self)
    (reachable : System.Reachable platform self.sys) (short : label.Short)
    (step : Step platform self label after) :
    Accounts platform k (trace ++ [(self, label)]) after := by
  have sound := reachable.sound
  obtain ⟨map, addressed⟩ := reachable.addressed
  exact ⟨accounts.truthful.step sound step,
    step.keeps Peer.keeps_holdsReceived accounts.holdsReceived,
    accounts.carries_step sound short step, accounts.queued_step sound addressed step,
    accounts.listed_step sound step, accounts.offered_step step, accounts.started_step sound step⟩

end Accounts

/-- A node whose queues were filled by its own threads, or not at all. -/
structure Honest (platform : Platform) (k : Nat) (node : Node) : Prop where
  newPackets : ∀ packet ∈ node.newPackets, Accounted platform k [] (start node) packet.content
  newInv : ∀ tag ∈ node.newInv, node.hasTag platform tag = true

theorem run_accounts {node : Node} {k : Nat} {after : Running} {trace : List (Running × Label)}
    (reachable : System.Reachable platform (.idle node)) (honest : Honest platform k node)
    (run : Run (Step platform) (start node) trace after)
    (short : ∀ taken ∈ trace, Label.Short taken.2) : Accounts platform k trace after := by
  have initial : Accounts platform k [] (start node) := by
    exact ⟨⟨fun _ inserted => absurd inserted not_inserted_start, honest.newInv, nofun⟩, nofun,
      ⟨honest.newPackets, nofun, nofun⟩, nofun, nofun, nofun, nofun⟩
  refine @Run.invariant _ _ _ _ _ _ (fun _ label => Label.Short label) (Accounts platform k)
    initial ?_ run short
  intro trace self label after before accounts short step
  exact accounts.step (reachable_sys reachable before) short step

/-- Tags in a packet that is accounted for have shared objects. -/
theorem Accounted.tagsOf {k : Nat} {trace : List (Running × Label)} {running : Running}
    {packet : Packet} (accounted : Accounted platform k trace running packet.content) :
    ∀ tag ∈ packet.tagsOf invName, running.sys.node.hasTag platform tag = true := by
  have other {name : UString} (same : cStr packet.command.toUString = name)
      (different : name ≠ invName) :
      ∀ tag ∈ packet.tagsOf invName, running.sys.node.hasTag platform tag = true := by
    rw [Packet.tagsOf_of_other same different]
    exact nofun
  generalize whole : packet.content = content at accounted
  have name := congrArg Prod.fst whole
  cases accounted with
  | greeting greeting =>
      exact other (name.trans (PacketVersion.greeting_name greeting)) (by decide)
  | repeated _ same =>
      rcases same with pong | verack
      · exact other (name.trans pong) (by decide)
      · exact other (name.trans verack) (by decide)
  | addresses => exact other name (by decide)
  | passed _ same => exact other (name.trans same) (by decide)
  | announcement short stored =>
      have payload : packet.messagePayload = _ := congrArg Prod.snd whole
      rw [Packet.tagsOf_of_decoded name (by
        rw [payload]
        exact readInventory_payload (Node.inventoryPayload_fits short))]
      exact stored
  | request => exact @other getdataName name (by decide)
  | object => exact @other objectName name (by decide)

/-- What a peer was told of has a shared object. -/
theorem run_told {node : Node} {k : Nat} {after : Running} {trace : List (Running × Label)}
    (reachable : System.Reachable platform (.idle node)) (honest : Honest platform k node)
    (run : Run (Step platform) (start node) trace after)
    (short : ∀ taken ∈ trace, Label.Short taken.2) :
    ∀ tag ∈ along (fun _ label => label.tells k) trace,
      after.sys.node.hasTag platform tag = true := by
  induction run with
  | nil => exact nofun
  | @next trace self after label before step ih =>
      have earlier : ∀ taken ∈ trace, Label.Short taken.2 :=
        fun taken member => short taken (List.mem_append_left _ member)
      have accounts := run_accounts reachable honest before earlier
      have sound := (reachable_sys reachable before).sound
      intro tag member
      rw [along_append, along_singleton] at member
      refine step.hasTag sound ?_
      rcases List.mem_append.mp member with old | new
      · exact ih earlier tag old
      · cases step.touches k with
        | alone _ none =>
            rw [Label.tells, Label.on, none] at new
            cases new
        | started _ _ none =>
            rw [Label.tells, Label.on, none] at new
            cases new
        | moved here there named moved =>
            rw [Label.tells, Label.on, named] at new
            cases moved with
            | push => cases new
            | send sent =>
                cases sent with
                | pop waiting first =>
                    refine (accounts.queued _ here _ ?_).tagsOf tag new
                    rw [first]
                    exact List.mem_cons_self
                | _ => cases new
            | listen listened =>
                cases listened with
                | tell phase =>
                    refine accounts.listed _ here tag ?_
                    rw [phase]
                    exact Node.mem_of_fillInv new
                | _ => cases new

/-- Whoever asks for a tag that some peer was told of, is answered with the object. -/
theorem told_answered {node : Node} {j k : Nat} {tag : Block 32} {objPayload : UString}
    {state after : Running} {before behind : List (Running × Label)}
    (reachable : System.Reachable platform (.idle node)) (honest : Honest platform k node)
    (run : Run (Step platform) (start node)
      (before ++ (state, .listen j (.answer tag objPayload)) :: behind) after)
    (short : ∀ taken ∈ before, Label.Short taken.2)
    (told : tag ∈ along (fun _ label => label.tells k) before) :
    objPayload ≠ [] ∧ state.sys.node.sharedObj.Stored objPayload ∧
      Node.inventoryHash platform objPayload = tag := by
  obtain ⟨earlier, next, step, _⟩ := run.split
  obtain ⟨map, addressed⟩ := (reachable_sys reachable earlier).addressed
  rcases (step.truthful addressed).1 j tag objPayload rfl with found | ⟨_, absent⟩
  · exact found
  · obtain ⟨payload, stored, same⟩ :=
      Node.hasTag_iff.mp (run_told reachable honest earlier short tag told)
    exact absurd same (absent payload stored)

/-- A peer that is told of the only object asks for it. -/
theorem told_answered_sample : ∃ node before state after objPayload,
    Run (Step Platform.sample) (start node) (before ++ [(state, .listen 0 (.answer
      (Node.inventoryHash Platform.sample Object.sample.messagePayload) objPayload))]) after ∧
    objPayload ≠ [] ∧ state.sys.node.sharedObj.Stored objPayload ∧
      Node.inventoryHash Platform.sample objPayload =
        Node.inventoryHash Platform.sample Object.sample.messagePayload := by
  let tag := Node.inventoryHash Platform.sample Object.sample.messagePayload
  let packet := Node.invPacket Draws.sample [tag]
  let node := Node.sampleStored.send Platform.sample
    (PacketInv.encodeData ⟨Draws.sample.object.toPacket, [tag]⟩).toPacket
  have short : [tag].length * 32 + 9 < intLimit := by
    simp only [List.length_singleton, intLimit]
    omega
  have known : Node.sampleStored.hasTag Platform.sample tag = true :=
    Node.hasTag_iff.mpr ⟨_, Node.sampleStored_stored, rfl⟩
  have reachable : System.Reachable Platform.sample (.idle node) :=
    Node.sampleStored_reachable.step (@System.Step.operation Platform.sample
      (.idle Node.sampleStored) _ (.send Node.sampleStored _))
  have honest : Honest Platform.sample 0 node := by
    constructor
    · intro other member
      have content : packet.content = (invName, inventoryPayload [tag]) :=
        Node.invPacket_content [tag]
      rw [List.mem_singleton.mp member]
      exact content ▸ .announcement short (List.forall_mem_singleton.mpr known)
    · exact List.forall_mem_singleton.mpr known
  obtain ⟨trace, reached, conn, run, session⟩ :=
    run_session node Draws.sample Node.sampleVersion Node.sampleVerack_received
      Node.sampleVerack.cStr_command Node.sampleStored_few
  obtain ⟨before, state, handed, calls, told, shortBefore, _, here⟩ :=
    session.handed run rfl (Node.invPacket_sendable short)
  have few : Node.sampleInventory.length ≤ 50000 := by decide
  have read : readInventory.value (inventoryPayload Node.sampleInventory) 0 =
      .ok Node.sampleInventory := readInventory_payload (Node.inventoryPayload_short few)
  let frame := Node.sampleTags getdataName (by decide) (by simp [getdataName]) _ few
  have asked := told.next (@Step.listen Platform.sample _ 0 _ _ _ _ _ here
    (@Peer.Listen.getdata Platform.sample 0 _ _ frame.packet
      { frame.packet.copy with inventory := Node.sampleInventory } rfl
      (Node.sampleTags_received (by decide) (by simp [getdataName]) few) frame.cStr_command
      (by rw [PacketGetdata.ofPacket]; exact congrArg (· >>= _) read))
    fun spawned => absurd rfl spawned)
  have inside := (List.getElem?_eq_some_iff.mp here).1
  have there : (handed.peers.set 0 ⟨conn, .answering Node.sampleInventory, .sending calls⟩ ++
      [])[0]? = some ⟨conn, .answering Node.sampleInventory, .sending calls⟩ := by
    rw [List.append_nil, List.getElem?_set_self inside]
  have answered := asked.next (@Step.listen Platform.sample _ 0 _ _ _ _ _ there
    (@Peer.Listen.answer Platform.sample 0 _ _ Draws.sample tag _ _ rfl rfl)
    fun spawned => absurd rfl spawned)
  refine ⟨node, _, _, _, _, answered, told_answered (k := 0) reachable honest answered ?_ ?_⟩
  · simp only [List.forall_mem_append, List.forall_mem_singleton]
    exact ⟨⟨shortBefore, trivial⟩, trivial⟩
  · rw [along_append, along_append, along_singleton]
    refine List.mem_append_left _ (List.mem_append_right _ ?_)
    show tag ∈ packet.tagsOf invName
    rw [Node.tagsOf_invPacket short]
    exact List.mem_singleton_self _

end Running

end BitMRC
