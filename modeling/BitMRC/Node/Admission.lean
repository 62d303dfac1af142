import BitMRC.Node.ContentAddressing
import BitMRC.Node.Recovery
import BitMRC.Node.Reports

/-!
# What is stored

Objects come into the table from peers, from the proof of work, with acknowledgements and from
the object file.  On all these ways they have passed `validateObj`, be it before an
earlier restart.
-/

namespace BitMRC

open Foundation UString

variable {platform : Platform}

/-- Inserting stores nothing else. -/
theorem HashTable.stored_insertAll {c : UString} {nodes : List (LinkedNode UString)}
    {self : HashTable UString} {info : UString} (stored : (self.insertAll c nodes).Stored info) :
    self.Stored info ∨ ∃ cur ∈ nodes, cur.info = info := by
  induction nodes generalizing self with
  | nil => exact .inl stored
  | cons cur rest ih =>
      rcases ih stored with ⟨i, node, member, same⟩ | ⟨other, member, same⟩
      · rcases HashTable.mem_insert _ _ _ _ member with old | ⟨_, rfl⟩
        · exact .inl ⟨i, node, old, same⟩
        · exact .inr ⟨cur, List.mem_cons_self, same⟩
      · exact .inr ⟨other, List.mem_cons_of_mem _ member, same⟩

/-- A restart brings back only what was stored. -/
theorem Node.load_stored {saved after : Node} (sound : saved.Sound platform)
    {draws : Draws platform} {uninit : Uninit} {kFile : Option UString} {m : Nat}
    (result : Node.new.load draws uninit (some (saved.saveObjects.take m)) kFile = .ok after)
    {payload : UString} (stored : after.sharedObj.Stored payload) :
    saved.sharedObj.Stored payload := by
  unfold load at result
  obtain ⟨loaded, keys, objects⟩ := bind_eq_ok.mp result
  have empty : loaded.sharedObj = Node.new.sharedObj := by
    cases kFile with
    | none =>
        cases keys
        rfl
    | some file => exact ContentAddressed.loadKeysFile_sharedObj keys
  rw [Option.elim_some, loadObjectsFile_cut sound] at objects
  cases objects
  dsimp only at stored
  rcases HashTable.stored_insertAll stored with ⟨i, node, member, _⟩ | ⟨cur, member, same⟩
  · rw [empty] at member
    cases member
  · obtain ⟨record, inside, rfl⟩ := List.mem_map.mp (List.mem_of_mem_filter member)
    obtain ⟨node, listed, rfl⟩ := List.mem_map.mp ((Cursor.complete_sublist _ _).subset inside)
    obtain ⟨i, _, member⟩ := List.mem_flatMap.mp listed
    exact ⟨i, node, member, same⟩

namespace System

/-- What a step stores has passed the checks. -/
theorem Step.admitted {sys after : System} {event : Event} (step : Step platform sys event after)
    {payload : UString} (stored : after.node.sharedObj.Stored payload) :
    sys.node.sharedObj.Stored payload ∨ Node.Admitted platform payload := by
  cases step with
  | @insert i draws packet obj free decoded valid =>
      obtain ⟨i, cur, member, rfl⟩ := stored
      rcases HashTable.mem_insert _ _ _ _ member with old | ⟨_, rfl⟩
      · exact .inl ⟨i, cur, old, rfl⟩
      · exact .inr (.of_decoded valid decoded rfl rfl)
  | leave => exact .inl stored
  | announce => exact .inl stored
  | handle _ result =>
      obtain ⟨tags, reports⟩ := Node.handleObj_reports result
      exact (reports.complete payload stored).imp_right And.right
  | mine _ mines =>
      obtain ⟨i, cur, member, rfl⟩ := stored
      rcases HashTable.mem_insert _ _ _ _ member with old | ⟨_, rfl⟩
      · exact .inl ⟨i, cur, old, rfl⟩
      · exact .inr mines.admitted
  | take => exact .inl stored
  | refuse => exact .inl stored
  | publish => exact .inl stored
  | stop => exact .inl stored
  | operation operation =>
      rcases operation.reports_cases with ⟨tags, reports⟩ | ⟨same, _⟩
      · exact (reports.complete payload stored).imp_right And.right
      · exact .inl (same ▸ stored)

/-- Whatever a node has stored, over all its restarts from files that may have been cut, is the
payload of an object that has passed the checks. -/
theorem stored_admitted {sys : System} (reachable : Reachable platform sys) {payload : UString}
    (stored : sys.node.sharedObj.Stored payload) : Node.Admitted platform payload := by
  induction reachable with
  | start =>
      obtain ⟨i, cur, member, _⟩ := stored
      cases member
  | restart earlier result ih => exact ih (Node.load_stored earlier.sound result stored)
  | step before move ih =>
      rcases move.admitted stored with old | admitted
      · exact ih old
      · exact admitted

/-- A restart from an object file that was cut in its second record. -/
theorem stored_admitted_sample : ∃ saved loaded kept lost, Reachable Platform.sample saved ∧
    saved.node.sharedObj.toList = [kept, lost] ∧
    Node.new.load { Draws.sample with now := -1 } ⟨0, 0, 0, 0⟩
      (some (saved.node.saveObjects.take (saved.node.saveObjects.length - 1)))
      (some (saved.node.saveKeys.take 0)) = .ok loaded ∧
    loaded.sharedObj.toList = [kept] ∧ Node.Admitted Platform.sample kept.info := by
  obtain ⟨saved, kept, lost, reachable, _, long, _, nodes, live⟩ := Node.sampleOwner_restarted
  obtain ⟨loaded, result, _, _, objects⟩ := Node.load_prefix reachable.sound
    (fun own _ => ⟨Platform.sample_fullWidth _, Platform.sample_fullWidth _⟩) long
    { Draws.sample with now := -1 } ⟨0, 0, 0, 0⟩ 0 (saved.node.saveObjects.length - 1)
  rw [@Node.complete_objectRecords_cut _ _ reachable.sound [kept] lost nodes,
    List.filter_cons_of_pos live] at objects
  have stored : loaded.sharedObj.Stored kept.info := by
    have member : kept ∈ loaded.sharedObj.toList := objects ▸ List.mem_singleton_self kept
    obtain ⟨i, _, inside⟩ := List.mem_flatMap.mp member
    exact ⟨i, kept, inside, rfl⟩
  have restarted : Reachable Platform.sample (.idle loaded) := .restart reachable result
  exact ⟨saved, loaded, kept, lost, reachable, nodes, result, objects,
    stored_admitted restarted stored⟩

end System

end BitMRC
