import BitMRC.Node.Gossip
import BitMRC.Node.Sharing

/-!
# The objects of the node itself

Requests for keys, keys, messages and broadcasts go through `sendObj` into a queue, from which
`processPOW` takes one after the other and looks for its nonce.  Nothing falls out of this
queue, and what leaves it is shared, unless the checks refuse it by then.
-/

namespace BitMRC

open Foundation UString

variable {platform : Platform}

/-! ## What `processPOW` does -/

/-- What a step of `processPOW` does to the shared objects and to the announcements. -/
def PowAct.Does (platform : Platform) (before after : Node) : PowAct → Prop
  | .insert obj nonce =>
      after.sharedObj.Stored (Node.withNonce obj nonce).messagePayload ∧
        after.newInv = before.newInv
  | .announce obj nonce =>
      after.sharedObj = before.sharedObj ∧ after.newInv = before.newInv ++
        [Node.inventoryHash platform (Node.withNonce obj nonce).messagePayload]
  | _ => after.sharedObj = before.sharedObj ∧ after.newInv = before.newInv

theorem System.Step.does {sys after : System} {act : PowAct}
    (step : Step platform sys (.pow act) after) : act.Does platform sys.node after.node := by
  cases step with
  | take => exact ⟨rfl, rfl⟩
  | @mine buffer => exact ⟨sys.node.share_stored platform buffer _, rfl⟩
  | refuse => exact ⟨rfl, rfl⟩
  | publish => exact ⟨rfl, rfl⟩
  | stop => exact ⟨rfl, rfl⟩

/-- The rounds of its loop, the last one perhaps not over: every object gets a nonce that the
search comes upon, and is inserted and announced with it unless the checks refuse it. -/
inductive Rounds (platform : Platform) : List PowAct → PowPhase → Prop
  | none : Rounds platform [] .waiting
  | take {acts : List PowAct} (obj : Object) (before : Rounds platform acts .waiting) :
      Rounds platform (acts ++ [.take obj]) (.searching obj)
  | insert {acts : List PowAct} {obj : Object} {nonce : UInt64}
      (before : Rounds platform acts (.searching obj))
      (mines : Node.Mines platform obj nonce true) :
      Rounds platform (acts ++ [.insert obj nonce]) (.inserted obj nonce)
  | refuse {acts : List PowAct} {obj : Object} {nonce : UInt64}
      (before : Rounds platform acts (.searching obj))
      (mines : Node.Mines platform obj nonce false) :
      Rounds platform (acts ++ [.refuse obj nonce]) .waiting
  | announce {acts : List PowAct} {obj : Object} {nonce : UInt64}
      (before : Rounds platform acts (.inserted obj nonce)) :
      Rounds platform (acts ++ [.announce obj nonce]) .waiting
  | leave {acts : List PowAct} (before : Rounds platform acts .waiting) :
      Rounds platform (acts ++ [.leave]) .ended

/-- Only objects get into the queue. -/
theorem Node.queued_command (given : Object) :
    cStr (queued given).command.toUString = cStr objectCommand.toUString := rfl

theorem Rounds.step {sys after : System} {act : PowAct} {acts : List PowAct}
    (rounds : Rounds platform acts sys.pow)
    (given : ∀ obj ∈ sys.node.objects, ∃ given, obj = Node.queued given)
    (step : System.Step platform sys (.pow act) after) :
    Rounds platform (acts ++ [act]) after.pow := by
  cases step with
  | @take obj rest waiting queued =>
      obtain ⟨object, rfl⟩ := given obj (by rw [queued]; exact List.mem_cons_self)
      rw [waiting] at rounds
      dsimp only
      rw [if_pos (Node.queued_command object)]
      exact rounds.take _
  | mine searching mines =>
      rw [searching] at rounds
      exact rounds.insert mines
  | refuse searching mines =>
      rw [searching] at rounds
      exact rounds.refuse mines
  | publish inserted =>
      rw [inserted] at rounds
      exact rounds.announce
  | stop waiting =>
      rw [waiting] at rounds
      exact rounds.leave

namespace Running

/-! ## The queue -/

/-- What a step puts behind the end of the queue. -/
def queued (self : Running) (taken : Label × Running) : List Object :=
  taken.2.sys.node.objects.drop self.sys.node.objects.length

/-- The object that a step takes off its front. -/
def Label.took : Label → List Object
  | .pow (.take obj) => [obj]
  | _ => []

/-- A step gives objects to `sendObj`, or `processPOW` takes the first one. -/
theorem Step.objects_cases {self after : Running} {label : Label}
    (step : Step platform self label after) :
    (label.took = [] ∧ ∃ given : List Object,
      after.sys.node.objects = self.sys.node.objects ++ given.map Node.queued) ∨
    ∃ obj, label.took = [obj] ∧ self.sys.node.objects = obj :: after.sys.node.objects := by
  have still {objects : List Object} (same : objects = self.sys.node.objects) :
      ∃ given : List Object, objects = self.sys.node.objects ++ given.map Node.queued :=
    ⟨[], by rw [same, List.map_nil, List.append_nil]⟩
  cases step with
  | flush =>
      refine .inl ⟨rfl, still ?_⟩
      simp only [withNode]
      split
      next => rfl
      next => rfl
  | operate operation =>
      refine .inl ⟨rfl, ?_⟩
      rcases operation.gives_cases with ⟨tags, given, gives⟩ | ⟨_, same, _⟩
      · exact ⟨given, gives.objects⟩
      · exact still same
  | pow step =>
      cases step with
      | take _ queued => exact .inr ⟨_, rfl, queued⟩
      | mine => exact .inl ⟨rfl, still rfl⟩
      | refuse => exact .inl ⟨rfl, still rfl⟩
      | publish => exact .inl ⟨rfl, still rfl⟩
      | stop => exact .inl ⟨rfl, still rfl⟩
  | listen _ step =>
      refine .inl ⟨rfl, ?_⟩
      cases step with
      | @introduce _ _ address =>
          obtain ⟨nodes, same⟩ := self.sys.node.connectAddress_eq address
          rw [same]
          exact still rfl
      | leave _ step =>
          cases step
          exact still rfl
      | announce _ step =>
          cases step
          exact still rfl
      | handle _ step =>
          cases step with
          | handle _ result =>
              obtain ⟨tags, given, gives⟩ := Node.handleObj_gives result
              exact ⟨given, gives.objects⟩
      | _ => exact still rfl
  | _ => exact .inl ⟨rfl, still rfl⟩

/-- Everything in the queue came through `sendObj`. -/
def FromSendObj (self : Running) : Prop :=
  ∀ obj ∈ self.sys.node.objects, ∃ given, obj = Node.queued given

/-- One step of the queue. -/
theorem Step.objects_conserved {self after : Running} {label : Label}
    (step : Step platform self label after) :
    label.took ++ after.sys.node.objects =
        self.sys.node.objects ++ queued self (label, after) ∧
      ∀ obj ∈ queued self (label, after), ∃ given, obj = Node.queued given := by
  rw [queued]
  rcases step.objects_cases with ⟨took, given, objects⟩ | ⟨obj, took, first⟩
  · rw [took, objects, List.drop_left]
    refine ⟨rfl, fun obj member => ?_⟩
    obtain ⟨object, _, rfl⟩ := List.mem_map.mp member
    exact ⟨object, rfl⟩
  · rw [took, first, List.drop_of_length_le (by simp), List.append_nil]
    exact ⟨rfl, List.forall_mem_nil _⟩

theorem FromSendObj.step {self after : Running} {label : Label} (given : self.FromSendObj)
    (step : Step platform self label after) : after.FromSendObj := by
  obtain ⟨total, new⟩ := step.objects_conserved
  intro obj member
  have here : obj ∈ self.sys.node.objects ++ queued self (label, after) := by
    rw [← total]
    exact List.mem_append_right _ member
  rcases List.mem_append.mp here with old | last
  · exact given obj old
  · exact new obj last

/-- The steps of `processPOW` in a run. -/
def powActs (trace : List (Running × Label)) : List PowAct :=
  trace.filterMap fun taken => taken.2.pow?

theorem powActs_append (first second : List (Running × Label)) :
    powActs (first ++ second) = powActs first ++ powActs second := List.filterMap_append

/-- However the other threads move, `processPOW` goes round by round. -/
theorem run_rounds {node : Node} {after : Running} {trace : List (Running × Label)}
    (given : (start node).FromSendObj) (run : Run (Step platform) (start node) trace after) :
    Rounds platform (powActs trace) after.sys.pow := by
  refine (@Run.invariant _ _ _ _ _ _ (fun _ _ => True)
    (fun trace self => self.FromSendObj ∧ Rounds platform (powActs trace) self.sys.pow)
    ⟨given, .none⟩ ?_ run fun _ _ => trivial).2
  rintro trace self label after _ ⟨given, rounds⟩ _ step
  refine ⟨given.step step, ?_⟩
  rw [powActs_append]
  rcases step.pow_cases with ⟨act, rfl, moved⟩ | ⟨other, same⟩
  · exact rounds.step given moved
  · have none : powActs [(self, label)] = [] :=
      List.filterMap_cons_none other
    rw [same, none, List.append_nil]
    exact rounds

/-- Every object that is given to `sendObj` is taken once, in the order in which they were given,
and then stored and announced with a nonce that the search comes upon, unless the checks refuse it
by then; no other object is. -/
theorem objects_mined {node : Node} {after : Running} {trace : List (Running × Label)}
    (given : (start node).FromSendObj) (run : Run (Step platform) (start node) trace after) :
    ∃ record : List (Running × Label × Running),
      Run (Recorded (Step platform)) (start node) record after ∧
      record.map (fun taken => (taken.1, taken.2.1)) = trace ∧
      along (fun _ label => label.took) trace ++ after.sys.node.objects =
        node.objects ++ along queued record ∧
      Rounds platform (powActs trace) after.sys.pow ∧
      ∀ taken ∈ record,
        (∀ obj ∈ queued taken.1 taken.2, ∃ given, obj = Node.queued given) ∧
        ∀ act, taken.2.1 = .pow act →
          act.Does platform taken.1.sys.node taken.2.2.sys.node := by
  obtain ⟨record, recorded, same⟩ := run.recorded
  have conserves : Conserves (Recorded (Step platform)) (fun self => self.sys.node.objects) queued
      (fun _ taken => taken.1.took) := by
    rintro self ⟨label, _⟩ after ⟨step, rfl⟩
    exact step.objects_conserved.1
  refine ⟨record, recorded, same, ?_, run_rounds given run, ?_⟩
  · have taken := conserves.run recorded
    rwa [← same, along, List.flatMap_map]
  · rintro ⟨self, label, next⟩ member
    obtain ⟨_, step, rfl⟩ := recorded.taken _ member
    refine ⟨step.objects_conserved.2, ?_⟩
    rintro act rfl
    have moved : Step platform self (.pow act) next := step
    cases moved with
    | pow worked => exact worked.does

/-- Another request of time 0. -/
def Object.sampleOther : Object := { Object.sample with objectPayload := [1] }

/-- A round in which the checks accept the object. -/
theorem run_mines {self : Running} {obj : Object} {rest : List Object} {nonce : UInt64}
    (buffer : UString) (on : self.running = true) (waiting : self.sys.pow = .waiting)
    (queued : self.sys.node.objects = obj :: rest)
    (object : cStr obj.command.toUString = cStr Node.objectCommand.toUString)
    (mines : Node.Mines platform obj nonce true) : ∃ trace after,
      Run (Step platform) self trace after ∧
      powActs trace = [.take obj, .insert obj nonce, .announce obj nonce] ∧
      after.running = true ∧ after.sys.pow = .waiting ∧ after.sys.node.objects = rest := by
  have taken := Run.single (@Step.pow platform self _ _ (.take waiting queued) on)
  rw [if_pos object] at taken
  have mined := taken.next (.pow (@System.Step.mine platform _ buffer _ _ rfl mines) trivial)
  exact ⟨_, _, mined.next (.pow (.publish rfl) trivial), rfl, on, rfl, rfl⟩

/-- Two requests are mined in the order in which they were given. -/
theorem objects_mined_sample : ∃ trace after record,
    Run (Step Platform.sample)
      (start ((Node.new.sendObj Object.sample).sendObj Object.sampleOther)) trace after ∧
    record.map (fun taken => (taken.1, taken.2.1)) = trace ∧
    along (fun _ label => label.took) trace = [Node.queued Object.sample,
      Node.queued Object.sampleOther] ++ along queued record ∧
    Rounds Platform.sample (powActs trace) after.sys.pow ∧
    powActs trace = [.take (Node.queued Object.sample), .insert (Node.queued Object.sample) 1,
      .announce (Node.queued Object.sample) 1, .take (Node.queued Object.sampleOther),
      .insert (Node.queued Object.sampleOther) 1,
      .announce (Node.queued Object.sampleOther) 1] := by
  let node := (Node.new.sendObj Object.sample).sendObj Object.sampleOther
  have first : Node.Mines Platform.sample (Node.queued Object.sample) 1 true :=
    ⟨0, 2, 0, by decide +kernel, by decide +kernel⟩
  have second : Node.Mines Platform.sample (Node.queued Object.sampleOther) 1 true :=
    ⟨0, 2, 0, by decide +kernel, by decide +kernel⟩
  have started := Run.single (@Step.started Platform.sample (start node))
  obtain ⟨trace, between, run, acts, on, waiting, left⟩ := @run_mines Platform.sample
    { start node with running := true } _ _ _ [] rfl rfl rfl (Node.queued_command Object.sample)
    first
  obtain ⟨more, after, later, moreActs, _, _, none⟩ := @run_mines _ between _ _ _ [] on waiting
    left (Node.queued_command Object.sampleOther) second
  have given : (start node).FromSendObj := by
    intro obj member
    rcases List.mem_cons.mp member with rfl | last
    · exact ⟨_, rfl⟩
    · exact ⟨_, List.mem_singleton.mp last⟩
  obtain ⟨record, _, same, total, rounds, _⟩ :=
    objects_mined given ((started.append run).append later)
  rw [none, List.append_nil] at total
  refine ⟨_, after, record, (started.append run).append later, same, total, rounds, ?_⟩
  rw [powActs_append, powActs_append, acts, moreActs]
  rfl

end Running

end BitMRC
