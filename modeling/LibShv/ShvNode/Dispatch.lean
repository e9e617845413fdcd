import LibShv.RpcFrame.Total
import LibShv.ShvNode

/-!
# LibShv.ShvNode.Dispatch

Where a request ends up. It should be the node that the directories of the path
lead to, and that node should get the directories that are left. Each node splits
and joins the path again, so it is the node if the directories behind the first
one are plain.
-/

namespace LibShv

open QuotedSplit

namespace ShvNode

/-! ## the way through the tree -/

/-- Follow directories to children as far as there are any: the directories that are followed,
and those that are left. -/
def follow (nd : ShvNode) : List Bytes → List Bytes × List Bytes
  | [] => ([], [])
  | first :: rest =>
    match nd.childNode first with
    | none => ([], first :: rest)
    | some child => (first :: (child.follow rest).1, (child.follow rest).2)

/-- The same with the rest of the path joined and split for each child. -/
def walk (nd : ShvNode) (shv_path : List Bytes) : List Bytes × List Bytes :=
  match shv_path with
  | [] => ([], [])
  | first :: rest =>
    match _h : nd.childNode first with
    | none => ([], first :: rest)
    | some child =>
      (first :: (child.walk (splitPath (joinDirs rest))).1,
        (child.walk (splitPath (joinDirs rest))).2)
termination_by sizeOf nd
decreasing_by all_goals exact sizeOf_childNode ‹_›

/-- The node that the ids lead to. -/
def nodeAt (nd : ShvNode) : List Bytes → Option ShvNode
  | [] => some nd
  | first :: rest => (nd.childNode first).bind (·.nodeAt rest)

section

variable {nd child : ShvNode} {first : Bytes} {rest : List Bytes}

@[simp] theorem walk_nil (nd : ShvNode) : nd.walk [] = ([], []) := by
  rw [walk]

theorem walk_of_none (h : nd.childNode first = none) : nd.walk (first :: rest) = ([], first :: rest) := by
  rw [walk]
  split
  · rfl
  · simp_all

theorem walk_of_some (h : nd.childNode first = some child) :
    nd.walk (first :: rest) =
      (first :: (child.walk (splitPath (joinDirs rest))).1,
        (child.walk (splitPath (joinDirs rest))).2) := by
  rw [walk]
  split
  · simp_all
  · simp_all

end

theorem closed_splitPath (path : Bytes) : Closed SHV_PATH_QUOTE (splitPath path) := by
  rw [splitPath_eq_split]
  exact closed_split path

/-- Directories that are joined and split are the same if they are plain, and get lighter
otherwise. -/
theorem splitPath_joinDirs {dirs : List Bytes} (h : Closed SHV_PATH_QUOTE dirs) :
    ((∀ dir ∈ dirs, PlainDir dir) ∧ splitPath (joinDirs dirs) = dirs) ∨
      weights SHV_PATH_DELIM (splitPath (joinDirs dirs)) < weights SHV_PATH_DELIM dirs := by
  rw [joinDirs_eq, splitPath_eq_split]
  obtain hplain | hlt := weights_split_join delim_ne_quote h
  · exact .inl ⟨hplain, split_join_of_plain delim_ne_quote h hplain⟩
  · exact .inr hlt

theorem walk_eq_follow (nd : ShvNode) {dirs : List Bytes} (h : Closed SHV_PATH_QUOTE dirs)
    (hplain : ∀ dir ∈ dirs.tail, PlainDir dir) : nd.walk dirs = nd.follow dirs := by
  induction dirs generalizing nd with
  | nil => simp [follow]
  | cons first rest ih =>
    rw [follow]
    cases hchild : nd.childNode first with
    | none => exact walk_of_none hchild
    | some child =>
      have hrest : splitPath (joinDirs rest) = rest := by
        rw [joinDirs_eq, splitPath_eq_split]
        exact split_join_of_plain delim_ne_quote h.tail hplain
      rw [walk_of_some hchild, hrest,
        ih child h.tail fun dir hdir => hplain dir (List.mem_of_mem_tail hdir)]

/-- Lighter directories do not lead the same way. -/
theorem walk_ne_follow (nd : ShvNode) {dirs dirs' : List Bytes} (h : Closed SHV_PATH_QUOTE dirs')
    (hlt : weights SHV_PATH_DELIM dirs' < weights SHV_PATH_DELIM dirs) :
    nd.walk dirs' ≠ nd.follow dirs := by
  induction dirs generalizing nd dirs' with
  | nil => simp at hlt
  | cons first rest ih =>
    intro heq
    rw [follow] at heq
    cases dirs' with
    | nil =>
      rw [walk_nil] at heq
      cases hchild : nd.childNode first with
      | none => simp [hchild] at heq
      | some child => simp [hchild] at heq
    | cons first' rest' =>
      cases hchild' : nd.childNode first' with
      | none =>
        rw [walk_of_none hchild'] at heq
        cases hchild : nd.childNode first with
        | none =>
          simp only [hchild, Prod.mk.injEq, true_and] at heq
          rw [heq] at hlt
          omega
        | some child => simp [hchild] at heq
      | some child' =>
        rw [walk_of_some hchild'] at heq
        cases hchild : nd.childNode first with
        | none => simp [hchild] at heq
        | some child =>
          simp only [hchild, Prod.mk.injEq, List.cons.injEq] at heq
          obtain ⟨⟨rfl, hdirs⟩, hrest⟩ := heq
          obtain rfl : child = child' := Option.some.inj (hchild.symm.trans hchild')
          simp only [weights_cons] at hlt
          refine ih child (closed_splitPath (joinDirs rest')) ?_ (Prod.ext hdirs hrest)
          obtain ⟨-, hsame⟩ | hlighter := splitPath_joinDirs h.tail
          · rw [hsame]
            omega
          · omega

/-- The path leads the right way if there is no child to begin with, or the other directories
are plain. -/
theorem walk_eq_follow_iff (nd : ShvNode) {dirs : List Bytes} (h : Closed SHV_PATH_QUOTE dirs) :
    nd.walk dirs = nd.follow dirs ↔
      ∀ first rest, dirs = first :: rest → nd.childNode first ≠ none → ∀ dir ∈ rest, PlainDir dir := by
  cases dirs with
  | nil => simp [follow]
  | cons first rest =>
    cases hchild : nd.childNode first with
    | none =>
      refine iff_of_true ?_ ?_
      · rw [walk_of_none hchild, follow, hchild]
      · intro first' rest' heq hne
        obtain ⟨rfl, rfl⟩ := List.cons.inj heq
        exact absurd hchild hne
    | some child =>
      constructor
      · intro heq first' rest' hcons _
        obtain ⟨rfl, rfl⟩ := List.cons.inj hcons
        obtain ⟨hplain, -⟩ | hlt := splitPath_joinDirs h.tail
        · exact hplain
        · rw [walk_of_some hchild, follow] at heq
          simp only [hchild, Prod.mk.injEq, List.cons.injEq, true_and] at heq
          exact absurd (Prod.ext heq.1 heq.2)
            (walk_ne_follow child (closed_splitPath (joinDirs rest)) hlt)
      · intro hplain
        exact walk_eq_follow nd h (hplain first rest rfl (by simp [hchild]))

/-! ## the node that is reached -/

/-- The metadata have another path, and the rest is the same. -/
structure WithPath (md md' : RpcMetaData) (shv_path : List Bytes) : Prop where
  shv_path : splitPath md'.shvPath.asString = shv_path
  others : ∀ key, key ≠ Tag_ShvPath → md'.valueOf key = md.valueOf key

theorem WithPath.setShvPath {md md' : RpcMetaData} {path : Bytes} {shv_path : List Bytes}
    (h : WithPath (md.setShvPath path) md' shv_path) : WithPath md md' shv_path where
  shv_path := h.shv_path
  others key hkey := (h.others key hkey).trans (RpcMetaData.valueOf_setIValue_of_ne hkey _)

theorem shvPath_setShvPath (md : RpcMetaData) (path : Bytes) :
    (md.setShvPath path).shvPath.asString = path := by
  simp [RpcMetaData.setShvPath, RpcMetaData.shvPath, RpcMetaData.setIValue, RpcMetaData.valueOf,
    RpcValue.isValid, Variant.isValid, RpcValue.ofVariant, RpcValue.asString, RpcValue.value]

/-- The request with the metadata and the parameters. -/
def request (md : RpcMetaData) (m : RpcIMap) : RpcMessage := ⟨.mk md (.imap m), .inl rfl⟩

/-- A frame is answered by the node at the end of the way. -/
theorem handleRpcFrame_reaches (nd : ShvNode) (dirs : List Bytes) (frame : RpcFrame) :
    ∃ nd' md', nd.nodeAt (nd.walk (splitPath frame.metaData.shvPath.asString)).1 = some nd' ∧
      WithPath frame.metaData md' (nd.walk (splitPath frame.metaData.shvPath.asString)).2 ∧
      nd.handleRpcFrame dirs frame =
        nd'.answerFrame (dirs ++ (nd.walk (splitPath frame.metaData.shvPath.asString)).1)
          { frame with metaData := md' } := by
  rw [handleRpcFrame]
  cases hsplit : splitPath frame.metaData.shvPath.asString with
  | nil =>
    simp only [walk_nil, List.append_nil]
    exact ⟨nd, frame.metaData, rfl, ⟨hsplit, fun _ _ => rfl⟩, rfl⟩
  | cons first rest =>
    simp only
    split
    next hchild =>
      simp only [walk_of_none hchild, List.append_nil]
      exact ⟨nd, frame.metaData, rfl, ⟨hsplit, fun _ _ => rfl⟩, rfl⟩
    next child hchild =>
      have hlt := sizeOf_childNode hchild
      obtain ⟨nd', md', hnode, hpath, hanswer⟩ := handleRpcFrame_reaches child (dirs ++ [first])
        { frame with metaData := frame.metaData.setShvPath (joinDirs rest) }
      simp only [shvPath_setShvPath] at hnode hpath hanswer
      refine ⟨nd', md', ?_, ?_, ?_⟩
      · rw [walk_of_some hchild, nodeAt, hchild]
        exact hnode
      · rw [walk_of_some hchild]
        exact hpath.setShvPath
      · rw [hanswer, walk_of_some hchild, List.append_assoc]
        rfl
termination_by sizeOf nd

/-- A message is processed by the node at the end of the way. -/
theorem handleRpcRequestImpl_reaches (nd : ShvNode) (dirs : List Bytes) (md : RpcMetaData)
    (m : RpcIMap) :
    ∃ nd' md', nd.nodeAt (nd.walk (splitPath md.shvPath.asString)).1 = some nd' ∧
      WithPath md md' (nd.walk (splitPath md.shvPath.asString)).2 ∧
      nd.handleRpcRequestImpl dirs (request md m) =
        (dirs ++ (nd.walk (splitPath md.shvPath.asString)).1,
          (nd.walk (splitPath md.shvPath.asString)).2,
          nd'.processRpcRequest (dirs ++ (nd.walk (splitPath md.shvPath.asString)).1)
            (request md' m)) := by
  rw [handleRpcRequestImpl]
  have hmd : (request md m).value.metaData = md := rfl
  rw [hmd]
  cases hsplit : splitPath md.shvPath.asString with
  | nil =>
    simp only [walk_nil, List.append_nil]
    exact ⟨nd, md, rfl, ⟨hsplit, fun _ _ => rfl⟩, rfl⟩
  | cons first rest =>
    simp only
    split
    next hchild =>
      simp only [walk_of_none hchild, List.append_nil]
      exact ⟨nd, md, rfl, ⟨hsplit, fun _ _ => rfl⟩, rfl⟩
    next child hchild =>
      have hlt := sizeOf_childNode hchild
      have hset : (request md m).setShvPath (joinDirs rest) =
          request (md.setShvPath (joinDirs rest)) m := rfl
      obtain ⟨nd', md', hnode, hpath, hprocess⟩ := handleRpcRequestImpl_reaches child
        (dirs ++ [first]) (md.setShvPath (joinDirs rest)) m
      simp only [shvPath_setShvPath] at hnode hpath hprocess
      refine ⟨nd', md', ?_, ?_, ?_⟩
      · rw [walk_of_some hchild, nodeAt, hchild]
        exact hnode
      · rw [walk_of_some hchild]
        exact hpath.setShvPath
      · rw [hset, hprocess, walk_of_some hchild, List.append_assoc]
        rfl
termination_by sizeOf nd

/-! ## what a node does -/

/-- A call is one of a method that the node has for the rest of the path, and the request may
call it. -/
def MayCall (nd : ShvNode) (md : RpcMetaData) (segs : List Bytes) (method : Bytes) : Prop :=
  method = md.method.asString ∧ ∃ mm grant, nd.metaMethod segs method = .ok (some mm) ∧
    md.accessGrant = .ok grant ∧ mm.accessLevel.toInt ≤ grant.accessLevel.toInt

/-- A request is refused, or the method is called. -/
theorem processRpcRequest_cases (nd : ShvNode) (dirs : List Bytes) (rq : RpcMessage) :
    (∃ e, nd.processRpcRequest dirs rq = ⟨none, .error e⟩) ∨
      ∃ segs method result, segs = splitPath rq.value.metaData.shvPath.asString ∧
        nd.MayCall rq.value.metaData segs method ∧
        nd.processRpcRequest dirs rq = ⟨some (segs, method), result⟩ := by
  unfold processRpcRequest
  simp only
  cases hmethod : nd.metaMethod (splitPath rq.value.metaData.shvPath.asString)
      rq.value.metaData.method.asString with
  | error e => exact .inl ⟨e, rfl⟩
  | ok found =>
    cases found with
    | none => exact .inl ⟨_, rfl⟩
    | some mm =>
      cases hgrant : rq.value.metaData.accessGrant with
      | error e => exact .inl ⟨_, rfl⟩
      | ok grant =>
        simp only
        by_cases hlevel : grant.accessLevel.toInt < mm.accessLevel.toInt
        · rw [if_pos hlevel]
          exact .inl ⟨_, rfl⟩
        · rw [if_neg hlevel]
          by_cases huser : mm.userIDRequired = true ∧ userIdStr rq.value.metaData = []
          · rw [if_pos huser]
            exact .inl ⟨_, rfl⟩
          · rw [if_neg huser]
            exact .inr ⟨_, _, _, rfl, ⟨rfl, mm, grant, hmethod, hgrant, Int32.not_lt.mp hlevel⟩, rfl⟩

/-! ### responses -/

theorem emitSendRpcMessage_sublist (msg : RpcMessage) :
    (emitSendRpcMessage msg).Sublist [msg] := by
  unfold emitSendRpcMessage
  split
  · split
    · exact List.nil_sublist _
    · split
      · exact List.nil_sublist _
      · exact List.Sublist.refl _
  · exact List.Sublist.refl _

theorem length_respond_le (md : RpcMetaData) (toError : NodeFault → RpcError)
    (hook : RpcMessage → RpcMessage) (result : Except NodeFault RpcValue) :
    (respond md toError hook result).length ≤ 1 := by
  unfold respond
  simp only
  split
  · exact (emitSendRpcMessage_sublist _).length_le
  · simp

/-- A new response has no result. -/
theorem result_setError_forRequest (md : RpcMetaData) (err : RpcError) :
    ((RpcMessage.forRequest md).setError err).result = .invalid := by
  have hnone : (RpcMessage.forRequest md).checkMetaValues.asIMap = [] := by
    unfold RpcMessage.forRequest
    split
    · split <;> rfl
    · split <;> rfl
  unfold RpcMessage.setError RpcMessage.result
  simp only [RpcValue.setKey, hnone]
  split <;> rfl

/-- What is sent for a fault is an error. -/
theorem respond_error {md : RpcMetaData} {toError : NodeFault → RpcError}
    {hook : RpcMessage → RpcMessage} (hhook : hook = id ∨ hook = addLocalNode) {e : NodeFault}
    {resp : RpcMessage} (h : resp ∈ respond md toError hook (.error e)) :
    resp.error.isValid = .ok true := by
  unfold respond at h
  simp only at h
  generalize hresp : (RpcMessage.forRequest md).setError (toError e) = msg at h
  have hresult : msg.result = .invalid := by
    rw [← hresp]
    exact result_setError_forRequest md (toError e)
  split at h
  next hhas =>
    have herror : msg.error.isValid = .ok true := by
      unfold RpcMessage.hasResult at hhas
      rw [hresult] at hhas
      cases hvalid : msg.error.isValid with
      | error text => simp [hvalid, bind, Except.bind] at hhas
      | ok b => simpa [hvalid, bind, Except.bind, pure, Except.pure, RpcValue.isValid,
        Variant.isValid] using hhas
    have hsame : hook msg = msg := by
      obtain rfl | rfl := hhook
      · rfl
      · simp [addLocalNode, RpcMessage.isSuccess, hresult, RpcValue.isValid, Variant.isValid, pure,
          Except.pure]
    rw [hsame] at h
    rw [List.mem_singleton.mp ((emitSendRpcMessage_sublist msg).subset h)]
    exact herror
  · simp at h

/-! ## what is asked for -/

/-- A method is called only with the rest of the path, and where the request may call it; one
response at most is sent, and it is an error if nothing was called. -/
structure Answers (root : ShvNode) (md : RpcMetaData) (d : Dispatch) : Prop where
  called : ∀ segs method, d.call = some (segs, method) → segs = d.shv_path ∧
    ∃ nd, root.nodeAt d.dirs = some nd ∧ nd.MayCall md segs method
  responses : d.responses.length ≤ 1
  errors : d.call = none → ∀ resp ∈ d.responses, resp.error.isValid = .ok true

/-- A request gets to the node that the path leads to, with the rest of the path, and is
answered there. -/
structure Delivers (root : ShvNode) (md : RpcMetaData) (d : Dispatch) : Prop where
  reached : (d.dirs, d.shv_path) = root.follow (splitPath md.shvPath.asString)
  answers : Answers root md d

section

variable {root nd : ShvNode} {md md' : RpcMetaData} {shv_path dirs : List Bytes}

theorem WithPath.mayCall (h : WithPath md md' shv_path) {segs : List Bytes} {method : Bytes}
    (hcall : nd.MayCall md' segs method) : nd.MayCall md segs method := by
  obtain ⟨hmethod, mm, grant, hmm, hgrant, hlevel⟩ := hcall
  refine ⟨?_, mm, grant, hmm, ?_, hlevel⟩
  · rw [hmethod, RpcMetaData.method, RpcMetaData.method, h.others _ (by decide)]
  · rw [← hgrant]
    exact (RpcMetaData.accessGrant_congr (h.others _ (by decide)) (h.others _ (by decide))).symm

/-- What a node does with a request that it refuses or calls a method for. -/
theorem answers_of_processed (hnode : root.nodeAt dirs = some nd) (hpath : WithPath md md' shv_path)
    {p : Processed}
    (hp : (∃ e, p = ⟨none, .error e⟩) ∨ ∃ segs method result, segs = shv_path ∧
      nd.MayCall md' segs method ∧ p = ⟨some (segs, method), result⟩)
    (mdResp : RpcMetaData) (toError : NodeFault → RpcError) {hook : RpcMessage → RpcMessage}
    (hhook : hook = id ∨ hook = addLocalNode) :
    Answers root md ⟨dirs, shv_path, p.call, respond mdResp toError hook p.result⟩ where
  called segs method hcall := by
    obtain ⟨e, rfl⟩ | ⟨segs', method', result, rfl, hmay, rfl⟩ := hp
    · contradiction
    · obtain ⟨rfl, rfl⟩ := Prod.mk.inj (Option.some.inj hcall)
      exact ⟨rfl, nd, hnode, hpath.mayCall hmay⟩
  responses := length_respond_le mdResp toError hook p.result
  errors hcall resp hresp := by
    obtain ⟨e, rfl⟩ | ⟨segs', method', result, rfl, hmay, rfl⟩ := hp
    · exact respond_error hhook hresp
    · contradiction

theorem answerFrame_answers {frame : RpcFrame} (hnode : root.nodeAt dirs = some nd)
    (hpath : WithPath md frame.metaData shv_path) :
    (nd.answerFrame dirs frame).dirs = dirs ∧ (nd.answerFrame dirs frame).shv_path = shv_path ∧
      Answers root md (nd.answerFrame dirs frame) := by
  have hfinish (p : Processed) (toError : NodeFault → RpcError) (ls_hook : Bool)
      (hp : (∃ e, p = ⟨none, .error e⟩) ∨ ∃ segs method result, segs = shv_path ∧
        nd.MayCall frame.metaData segs method ∧ p = ⟨some (segs, method), result⟩) :
      Answers root md ⟨dirs, shv_path, p.call,
        respond frame.metaData toError (if ls_hook = true then addLocalNode else id) p.result⟩ := by
    refine answers_of_processed hnode hpath hp frame.metaData toError ?_
    cases ls_hook
    · exact .inl rfl
    · exact .inr rfl
  unfold answerFrame
  simp only [hpath.shv_path]
  cases hmethod : nd.metaMethod shv_path frame.metaData.method.toString with
  | error e => exact ⟨rfl, rfl, hfinish _ _ _ (.inl ⟨e, rfl⟩)⟩
  | ok found =>
    cases found with
    | none => exact ⟨rfl, rfl, hfinish _ _ _ (.inl ⟨_, rfl⟩)⟩
    | some mm =>
      cases hmsg : frame.toRpcMessage with
      | error e =>
        simp only
        cases frameFault e with
        | none => exact ⟨rfl, rfl, by simp, by simp, by simp⟩
        | some e => exact ⟨rfl, rfl, hfinish _ _ _ (.inl ⟨e, rfl⟩)⟩
      | ok r =>
        obtain ⟨msg, errmsg⟩ := r
        simp only
        by_cases herrmsg : errmsg ≠ ""
        · rw [if_pos herrmsg]
          exact ⟨rfl, rfl, hfinish _ _ _ (.inl ⟨_, rfl⟩)⟩
        · rw [if_neg herrmsg]
          obtain rfl : errmsg = "" := Decidable.not_not.mp herrmsg
          have hmd := RpcFrame.metaData_of_toRpcMessage hmsg
          refine ⟨rfl, rfl, hfinish _ _ _ ?_⟩
          have hcases := nd.processRpcRequest_cases dirs msg
          rw [hmd, hpath.shv_path] at hcases
          exact hcases

end

/-- The frame goes the way of the path that is joined again and again. -/
theorem handleRpcFrame_answers (root : ShvNode) (frame : RpcFrame) :
    ((root.handleRpcFrame [] frame).dirs, (root.handleRpcFrame [] frame).shv_path) =
        root.walk (splitPath frame.metaData.shvPath.asString) ∧
      Answers root frame.metaData (root.handleRpcFrame [] frame) := by
  obtain ⟨nd, md', hnode, hpath, hanswer⟩ := root.handleRpcFrame_reaches [] frame
  obtain ⟨hdirs, hshv_path, hanswers⟩ :=
    @answerFrame_answers root nd frame.metaData _ _ { frame with metaData := md' } hnode hpath
  rw [hanswer, List.nil_append]
  exact ⟨Prod.ext hdirs hshv_path, hanswers⟩

/-- So does the message. -/
theorem handleRpcRequest_answers (root : ShvNode) (md : RpcMetaData) (m : RpcIMap) :
    ((root.handleRpcRequest (request md m)).dirs, (root.handleRpcRequest (request md m)).shv_path) =
        root.walk (splitPath md.shvPath.asString) ∧
      Answers root md (root.handleRpcRequest (request md m)) := by
  obtain ⟨nd, md', hnode, hpath, hprocess⟩ := root.handleRpcRequestImpl_reaches [] md m
  have hcases := nd.processRpcRequest_cases (root.walk (splitPath md.shvPath.asString)).1
    (request md' m)
  have hmd : (request md' m).value.metaData = md' := rfl
  rw [hmd, hpath.shv_path] at hcases
  simp only [handleRpcRequest, hprocess, List.nil_append]
  exact ⟨trivial, answers_of_processed hnode hpath hcases _ requestError (.inl rfl)⟩

/-- A request is delivered, as a frame and as a message, if there is no child for the first
directory of its path or the other directories are plain. -/
theorem delivers_iff (root : ShvNode) (md : RpcMetaData) (protocol : ProtocolType) (data : Bytes)
    (m : RpcIMap) :
    (Delivers root md (root.handleRpcFrame [] ⟨protocol, md, data⟩) ∧
      Delivers root md (root.handleRpcRequest (request md m))) ↔
    ∀ first rest, splitPath md.shvPath.asString = first :: rest →
      root.childNode first ≠ none → ∀ dir ∈ rest, PlainDir dir := by
  rw [← walk_eq_follow_iff root (closed_splitPath md.shvPath.asString)]
  obtain ⟨hframe, hframeAnswers⟩ := root.handleRpcFrame_answers ⟨protocol, md, data⟩
  obtain ⟨hrequest, hrequestAnswers⟩ := root.handleRpcRequest_answers md m
  refine ⟨fun h => ?_, fun h => ⟨⟨?_, hframeAnswers⟩, ⟨?_, hrequestAnswers⟩⟩⟩
  · exact hrequest.symm.trans h.2.reached
  · exact hframe.trans h
  · exact hrequest.trans h

/-! ### a directory with a slash between quotes -/

/-- A root with one child. -/
def oneChild : ShvNode :=
  .mk [] (fun _ => .ok []) (fun _ _ _ _ => .ok .invalid)
    [.mk (ascii "n") (fun _ => .ok []) (fun _ _ _ _ => .ok .invalid) []]

/-- The metadata of a request for a path. -/
def metaOfPath (path : Bytes) : RpcMetaData := .mk [(Tag_ShvPath, .ofVariant (.string path))] []

/-- The child gets two directories instead of one. -/
theorem not_delivers :
    splitPath (ascii "n/a'b/c'd") = [ascii "n", ascii "a'b/c'd"] ∧
      (oneChild.handleRpcRequest (request (metaOfPath (ascii "n/a'b/c'd")) [])).shv_path =
        [ascii "'a'b", ascii "c'd'"] ∧
      ¬Delivers oneChild (metaOfPath (ascii "n/a'b/c'd"))
        (oneChild.handleRpcRequest (request (metaOfPath (ascii "n/a'b/c'd")) [])) := by
  have hsplit : splitPath (ascii "n/a'b/c'd") = [ascii "n", ascii "a'b/c'd"] := by decide
  have hchild : oneChild.childNode (ascii "n") =
      some (.mk (ascii "n") (fun _ => .ok []) (fun _ _ _ _ => .ok .invalid) []) := rfl
  have hagain : splitPath (joinDirs [ascii "a'b/c'd"]) = [ascii "'a'b", ascii "c'd'"] := by decide
  obtain ⟨hreached, -⟩ := oneChild.handleRpcRequest_answers (metaOfPath (ascii "n/a'b/c'd")) []
  have hpath : (metaOfPath (ascii "n/a'b/c'd")).shvPath.asString = ascii "n/a'b/c'd" := rfl
  rw [hpath, hsplit, walk_of_some hchild, hagain, walk_of_none rfl] at hreached
  refine ⟨hsplit, congrArg Prod.snd hreached, fun h => ?_⟩
  have hfollow := h.reached
  rw [hreached, hpath, hsplit, follow, hchild] at hfollow
  exact absurd (congrArg Prod.snd hfollow) (by decide)

end ShvNode

end LibShv
