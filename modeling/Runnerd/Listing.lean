import Mathlib.Data.List.Sort
import Runnerd.Daemon

/-!
# LIST

The loop of `makeListResponse` compares each line with the room that is left in the frame. This is
the same as comparing the whole list with the size of a frame.
-/

namespace Runnerd

namespace Daemon

variable {jobs jobs' : JobTable} {ids : List JobId} {response : Bytes}

/-- The lines of these jobs. -/
def listLines (jobs : JobTable) (ids : List JobId) : Bytes := (ids.filterMap jobs.find).flatMap listLine

/-- A list that fits into a frame, or an error. -/
def boundedList (list : Bytes) : Bytes :=
  if list.length ≤ kMaxFrameSize then list else text "ERR too many jobs to list"

theorem listLines_cons {j : JobId} {job : Job} (hjob : jobs.find j = some job) :
    listLines jobs (j :: ids) = listLine job ++ listLines jobs ids := by
  unfold listLines
  rw [List.filterMap_cons_some hjob, List.flatMap_cons]

/-- Giving up at the first line without room is giving up when the whole list is too long. -/
theorem listLoop_eq (hids : ∀ j ∈ ids, j ∈ jobs.keys) (hlength : response.length ≤ kMaxFrameSize) :
    listLoop jobs response ids = .ok (boundedList (response ++ listLines jobs ids)) := by
  induction ids generalizing response with
  | nil =>
    rw [show listLines jobs [] = [] from rfl, List.append_nil, boundedList, if_pos hlength]
    rfl
  | cons j ids ih =>
    obtain ⟨job, hjob⟩ := (Table.mem_keys_iff jobs j).mp (hids j List.mem_cons_self)
    -- the subtraction does not wrap around
    have hroom : subSize kMaxFrameSize response.length = .ok (kMaxFrameSize - response.length) :=
      if_pos hlength
    rw [listLines_cons hjob, ← List.append_assoc, listLoop, hjob]
    simp only [hroom, bind, Except.bind]
    by_cases hline : (listLine job).length > kMaxFrameSize - response.length
    · have hlong : ¬ (response ++ listLine job ++ listLines jobs ids).length ≤ kMaxFrameSize := by
        simp only [List.length_append]
        omega
      rw [if_pos hline, boundedList, if_neg hlong]
      rfl
    · rw [if_neg hline]
      refine ih (fun k hk => hids k (List.mem_cons_of_mem _ hk)) ?_
      rw [List.length_append]
      omega

/-- The ids of a table's jobs in increasing order. -/
structure InOrder (jobs : JobTable) (ids : List JobId) : Prop where
  increasing : ids.Pairwise (· < ·)
  mem_iff : ∀ j, j ∈ ids ↔ ∃ job, jobs.find j = some job

theorem InOrder.unique (h : InOrder jobs ids) {others : List JobId} (h' : InOrder jobs others) :
    ids = others :=
  h.increasing.eq_of_mem_iff h'.increasing fun j => (h.mem_iff j).trans (h'.mem_iff j).symm

theorem inOrder_insertionSort (jobs : JobTable) :
    InOrder jobs (jobs.keys.insertionSort (· ≤ ·)) where
  increasing := by
    have hnodup : (jobs.keys.insertionSort (· ≤ ·)).Nodup :=
      (List.perm_insertionSort _ _).nodup_iff.mpr (AList.keys_nodup jobs)
    exact ((List.pairwise_insertionSort (· ≤ ·) jobs.keys).and hnodup).imp
      fun h => lt_of_le_of_ne h.1 h.2
  mem_iff j := (List.mem_insertionSort _).trans (Table.mem_keys_iff jobs j)

theorem makeListResponse_eq (h : InOrder jobs ids) :
    makeListResponse jobs = .ok (boundedList (text "OK" ++ listLines jobs ids)) := by
  obtain rfl := h.unique (inOrder_insertionSort jobs)
  refine listLoop_eq (fun j hj => ?_) (by decide)
  exact (List.mem_insertionSort _).mp hj

theorem makeListResponse_ok (jobs : JobTable) : ∃ list, makeListResponse jobs = .ok list :=
  ⟨_, makeListResponse_eq (inOrder_insertionSort jobs)⟩

/-- Two tables with the same jobs are listed alike, in whatever order they keep them. -/
theorem makeListResponse_congr (h : ∀ j, jobs'.find j = jobs.find j) :
    makeListResponse jobs' = makeListResponse jobs := by
  have horder := inOrder_insertionSort jobs
  have horder' : InOrder jobs' (jobs.keys.insertionSort (· ≤ ·)) :=
    ⟨horder.increasing, fun j => by rw [h j, horder.mem_iff j]⟩
  have hlines : ∀ ids, listLines jobs' ids = listLines jobs ids := fun ids => by
    unfold listLines
    rw [funext h]
  rw [makeListResponse_eq horder', makeListResponse_eq horder, hlines]

theorem length_boundedList_le (list : Bytes) : (boundedList list).length ≤ kMaxFrameSize := by
  unfold boundedList
  split_ifs with hle
  · exact hle
  · decide

/-- Jobs are listed under their own ids, if the table files them under these. -/
theorem map_id_filterMap (hid : ∀ j job, jobs.find j = some job → job.id = j)
    (hids : ∀ j ∈ ids, ∃ job, jobs.find j = some job) :
    (ids.filterMap jobs.find).map Job.id = ids := by
  induction ids with
  | nil => rfl
  | cons j ids ih =>
    obtain ⟨job, hjob⟩ := hids j List.mem_cons_self
    rw [List.filterMap_cons_some hjob, List.map_cons, hid j job hjob,
      ih fun k hk => hids k (List.mem_cons_of_mem _ hk)]

/-- LIST answers with one line for each job in the order of their ids, or with an error exactly when
this does not fit into a frame. -/
theorem makeListResponse_complete (jobs : JobTable) : ∃ ids, InOrder jobs ids ∧
    ((text "OK" ++ listLines jobs ids).length ≤ kMaxFrameSize →
      makeListResponse jobs = .ok (text "OK" ++ listLines jobs ids)) ∧
    (kMaxFrameSize < (text "OK" ++ listLines jobs ids).length ↔
      makeListResponse jobs = .ok (text "ERR too many jobs to list")) ∧
    ((∀ j job, jobs.find j = some job → job.id = j) →
      (ids.filterMap jobs.find).map Job.id = ids) ∧
    (∀ jobs' : JobTable, (∀ j, jobs'.find j = jobs.find j) →
      makeListResponse jobs' = makeListResponse jobs) ∧
    ∃ response frame, makeListResponse jobs = .ok response ∧ encodeFrame response = .ok frame := by
  have horder := inOrder_insertionSort jobs
  have heq := makeListResponse_eq horder
  refine ⟨_, horder, fun hle => ?_, ⟨fun hlong => ?_, fun herror => ?_⟩,
    fun hid => map_id_filterMap hid fun j => (horder.mem_iff j).mp,
    fun jobs' => makeListResponse_congr, _, _, heq,
    if_neg (Nat.not_lt.mpr (length_boundedList_le _))⟩
  · rw [heq, boundedList, if_pos hle]
  · rw [heq, boundedList, if_neg (Nat.not_le.mpr hlong)]
  · rw [← Nat.not_le]
    intro hle
    -- a list begins with an O, the error with an E
    rw [heq, boundedList, if_pos hle] at herror
    have hhead := congrArg List.head? (Except.ok.inj herror)
    revert hhead
    simp [text]

end Daemon

end Runnerd
