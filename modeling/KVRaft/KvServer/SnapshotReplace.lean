import KVRaft.KvServer.SnapshotInstall

/-!
# What an installed snapshot leaves

The table of requests is the one of the server that made the snapshot.  The map is
loaded into the old one, whose keys keep their values and outlive the snapshot.
-/

namespace KVRaft
namespace KvServer

section

variable [KvArchive] [LawfulKvArchive]

/-- A snapshot can always be read back. -/
theorem readSnapShotToInstall_isSome (kv maker : KvServer) :
    exists kv', kv.readSnapShotToInstall maker.makeSnapShot = some kv' := by
  have hne : maker.makeSnapShot.isEmpty = false := by
    rw [List.isEmpty_eq_false_iff]
    exact LawfulKvArchive.textOarchiveServer_ne_nil _
  unfold readSnapShotToInstall
  rw [hne]
  unfold parseFromString makeSnapShot getSnapshotData
  simp only [Bool.false_eq_true, if_false, LawfulKvArchive.textIarchive_textOarchiveServer,
    Option.bind_eq_bind, Option.bind_some, SkipList.loadFile_dumpFile]
  exact ⟨_, rfl⟩

/-- Installing gives the maker's data exactly when the old map agrees with it. -/
theorem snapshot_replaces_iff (kv maker : KvServer) :
    exists kv', kv.readSnapShotToInstall maker.makeSnapShot = some kv' ∧
      (SameData kv' maker <->
        forall key value, kv.skipList.searchElement key = some value ->
          maker.skipList.searchElement key = some value) := by
  rcases readSnapShotToInstall_isSome kv maker with ⟨kv', h⟩
  refine ⟨kv', h, ?_⟩
  rcases readSnapShotToInstall_makeSnapShot h with ⟨loaded, hload, rfl⟩
  have hmap := SkipList.loadFile_dumpFile_replaces hload
  constructor
  · intro hsame
    exact hmap.mp hsame.map
  · intro hagrees
    exact { map := hmap.mpr hagrees, requests := fun _ => rfl }

end

/-!
# A server that holds data already

The maker has put `a` to `x`.  The server it sends its snapshot to has put `b` to
`x` and `c` to `y`.
-/

def putAs (clientId key value : Bytes) : Op where
  operation := .put
  key := key
  value := value
  clientId := clientId
  requestId := 1

def snapshotMaker : KvServer :=
  replay (-1) [putAs [65] [120] [97]]

def laggingServer : KvServer :=
  replay (-1) [putAs [66] [120] [98], putAs [67] [121] [99]]

theorem laggingServer_keeps_old_keys :
    exists kv', @readSnapShotToInstall plainKvArchive laggingServer
        (@makeSnapShot plainKvArchive snapshotMaker) = some kv' ∧
      ¬ SameData kv' snapshotMaker ∧
      kv'.skipList.searchElement [120] = some [98] ∧
      snapshotMaker.skipList.searchElement [120] = some [97] ∧
      kv'.skipList.searchElement [121] = some [99] ∧
      snapshotMaker.skipList.searchElement [121] = none := by
  have hfound : exists kv', kv' ∈ @readSnapShotToInstall plainKvArchive laggingServer
      (@makeSnapShot plainKvArchive snapshotMaker) ∧
      kv'.skipList.searchElement [120] = some [98] ∧
      kv'.skipList.searchElement [121] = some [99] := by
    decide +kernel
  have hmaker : snapshotMaker.skipList.searchElement [120] = some [97] := by
    decide +kernel
  rcases hfound with ⟨kv', h, hx, hy⟩
  refine ⟨kv', h, ?_, hx, hmaker, hy, by decide +kernel⟩
  intro hsame
  have hboth := hsame.map [120]
  rw [hx, hmaker] at hboth
  cases hboth

def laterMaker : KvServer :=
  replay (-1) [putAs [65] [120] [97], putAs [67] [121] [99]]

/-- A server that is only behind the maker gets its data. -/
theorem laterMaker_replaces :
    exists kv', @readSnapShotToInstall plainKvArchive snapshotMaker
        (@makeSnapShot plainKvArchive laterMaker) = some kv' ∧
      SameData kv' laterMaker := by
  rcases @snapshot_replaces_iff plainKvArchive plainKvArchive_lawful snapshotMaker
    laterMaker with ⟨kv', h, hiff⟩
  refine ⟨kv', h, hiff.mpr ?_⟩
  intro key value hvalue
  have hchain : snapshotMaker.skipList.chain = [([120], [97])] := by
    decide +kernel
  have hmem := (SkipList.searchIn_eq_some snapshotMaker.skipList.sorted).mp hvalue
  rw [hchain, List.mem_singleton] at hmem
  cases hmem
  decide +kernel

end KvServer
end KVRaft
