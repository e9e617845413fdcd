import LibShv.BrokerApp.Subscriptions

/-!
# LibShv.CommonRpcClientHandle.Slashes

Slashes around the path of a subscription: which of them its constructor takes off, and
what a connection's list of subscriptions is after calls that add and remove with paths
of which it takes off all.
-/

namespace LibShv

/-! ## one path -/

/-- The path without the slashes in front and behind. -/
def stripSlashes (path : Bytes) : Bytes :=
  ((path.dropWhile (· = SHV_PATH_DELIM)).reverse.dropWhile (· = SHV_PATH_DELIM)).reverse

/-- Slashes are on one side of the path at most, or there is nothing else. -/
def OneSided (path : Bytes) : Prop :=
  path.head? ≠ some SHV_PATH_DELIM ∨ path.getLast? ≠ some SHV_PATH_DELIM ∨
    ∀ c ∈ path, c = SHV_PATH_DELIM

namespace Subscription

variable {path : Bytes}

theorem stripSlashes_of_head? (h : path.head? ≠ some SHV_PATH_DELIM) :
    trimPath path = stripSlashes path := by
  have hprefix : (path.reverse.dropWhile (· = SHV_PATH_DELIM)).reverse <+: path := by
    rw [← List.reverse_suffix, List.reverse_reverse]
    exact List.dropWhile_suffix _
  rw [trimPath, stripSlashes, dropWhile_delim h, ← List.length_reverse]
  exact (List.prefix_iff_eq_take.mp hprefix).symm

theorem stripSlashes_of_getLast? (h : path.getLast? ≠ some SHV_PATH_DELIM) :
    trimPath path = stripSlashes path := by
  have hlast : (path.dropWhile (· = SHV_PATH_DELIM)).reverse.head? ≠ some SHV_PATH_DELIM := by
    rw [List.head?_reverse]
    intro hslash
    obtain ⟨front, hfront⟩ := List.dropWhile_suffix (· = SHV_PATH_DELIM) (l := path)
    rw [← hfront, List.getLast?_append, hslash] at h
    exact h rfl
  rw [trimPath_of_getLast? h, stripSlashes, dropWhile_delim hlast, List.reverse_reverse]

theorem stripSlashes_of_all (h : ∀ c ∈ path, c = SHV_PATH_DELIM) :
    trimPath path = stripSlashes path := by
  have hnil : path.dropWhile (· = SHV_PATH_DELIM) = [] := by
    rw [List.dropWhile_eq_nil_iff]
    simpa using h
  rw [trimPath, stripSlashes, hnil]
  simp

/-- A slash in front is one that is dropped. -/
theorem length_dropWhile_lt (h : path.head? = some SHV_PATH_DELIM) :
    (path.dropWhile (· = SHV_PATH_DELIM)).length < path.length := by
  obtain ⟨rest, rfl⟩ := List.head?_eq_some_iff.mp h
  rw [List.dropWhile_cons_of_pos (by simp), List.length_cons]
  exact Nat.lt_succ_of_le (List.dropWhile_suffix _).length_le

/-- A path with slashes on both sides of something keeps one behind. -/
theorem length_stripSlashes_lt (h : ¬OneSided path) :
    (stripSlashes path).length < (trimPath path).length := by
  simp only [OneSided, not_or, not_not, not_forall] at h
  obtain ⟨hhead, hlast, c, hc, hne⟩ := h
  obtain ⟨slashes, hsplit⟩ := List.dropWhile_suffix (· = SHV_PATH_DELIM) (l := path)
  generalize hrest : path.dropWhile (· = SHV_PATH_DELIM) = rest at hsplit
  have hfront : rest.length < path.length := hrest ▸ length_dropWhile_lt hhead
  have hrestne : rest ≠ [] := by
    rintro rfl
    rw [List.dropWhile_eq_nil_iff] at hrest
    exact hne (by simpa using hrest c hc)
  have hback : (rest.reverse.dropWhile (· = SHV_PATH_DELIM)).length < rest.length := by
    have hslash : rest.reverse.head? = some SHV_PATH_DELIM := by
      rw [List.head?_reverse]
      rw [← hsplit, List.getLast?_append_of_ne_nil _ hrestne] at hlast
      exact hlast
    simpa using length_dropWhile_lt hslash
  have hkept : rest.reverse.dropWhile (· = SHV_PATH_DELIM) ≠ [] := by
    intro hnil
    rw [List.dropWhile_eq_nil_iff] at hnil
    have hhead' := List.head?_dropWhile_not (· = SHV_PATH_DELIM) path
    obtain ⟨b, tail, rfl⟩ := List.exists_cons_of_ne_nil hrestne
    rw [hrest] at hhead'
    have hb := hnil b (by simp)
    simp at hhead' hb
    exact hhead' hb
  have hlength : (path.reverse.dropWhile (· = SHV_PATH_DELIM)).length =
      (rest.reverse.dropWhile (· = SHV_PATH_DELIM)).length + slashes.length := by
    rw [← hsplit, List.reverse_append, List.dropWhile_append, if_neg (by simpa using hkept),
      List.length_append, List.length_reverse]
  have hslashes : path.length = slashes.length + rest.length := by
    rw [← hsplit, List.length_append]
  rw [stripSlashes, trimPath, hrest, List.length_reverse, List.length_take, hlength]
  omega

/-- The constructor takes off every slash around the path if they are on one side only. -/
theorem trimPath_eq_stripSlashes_iff : trimPath path = stripSlashes path ↔ OneSided path := by
  constructor
  · intro heq
    by_contra hnot
    have hlt := length_stripSlashes_lt hnot
    rw [heq] at hlt
    exact absurd hlt (lt_irrefl _)
  · rintro (hhead | hlast | hall)
    · exact stripSlashes_of_head? hhead
    · exact stripSlashes_of_getLast? hlast
    · exact stripSlashes_of_all hall

theorem stripSlashes_head (path : Bytes) :
    (stripSlashes path).head? ≠ some SHV_PATH_DELIM := by
  intro h
  have hhead := List.head?_dropWhile_not (· = SHV_PATH_DELIM) path
  have hsuffix := List.dropWhile_suffix (· = SHV_PATH_DELIM)
    (l := (path.dropWhile (· = SHV_PATH_DELIM)).reverse)
  obtain ⟨back, hback⟩ : stripSlashes path <+: path.dropWhile (· = SHV_PATH_DELIM) := by
    rw [← List.reverse_suffix, stripSlashes, List.reverse_reverse]
    exact hsuffix
  rw [← hback, List.head?_append, h] at hhead
  simp at hhead

/-- The subscription to the path without slashes around it. -/
def stripped (path method source : Bytes) : Subscription :=
  ⟨stripSlashes path, method, source, stripSlashes_head path⟩

theorem new_eq_stripped_iff {method source : Bytes} :
    new path method source = stripped path method source ↔ OneSided path := by
  rw [← trimPath_eq_stripSlashes_iff, Subscription.ext_iff]
  simp [stripped]

theorem new_eq_stripped (h : OneSided path) (method source : Bytes) :
    new path method source = stripped path method source :=
  new_eq_stripped_iff.mpr h

end Subscription

/-! ## calls -/

/-- A call that changes the subscriptions of a connection. -/
inductive SubscriptionCall where
  | addSubscription (path method source : Bytes)
  | removeSubscription (path method source : Bytes)

namespace SubscriptionCall

def path : SubscriptionCall → Bytes
  | addSubscription path _ _ => path
  | removeSubscription path _ _ => path

/-- What the call does to the stripped subscriptions. -/
def strippedStep (subs : List Subscription) : SubscriptionCall → List Subscription
  | addSubscription path method source =>
    if .stripped path method source ∈ subs then subs
    else subs ++ [.stripped path method source]
  | removeSubscription path method source => subs.erase (.stripped path method source)

end SubscriptionCall

namespace CommonRpcClientHandle

variable {handle : CommonRpcClientHandle}

def call (handle : CommonRpcClientHandle) : SubscriptionCall → CommonRpcClientHandle
  | .addSubscription path method source => (handle.addSubscription (.new path method source)).2
  | .removeSubscription path method source =>
    (handle.removeSubscription (.new path method source)).2

def calls (handle : CommonRpcClientHandle) (cs : List SubscriptionCall) : CommonRpcClientHandle :=
  cs.foldl call handle

theorem addSubscription_of_mem {subs : Subscription} (h : subs ∈ handle.m_subscriptions) :
    (handle.addSubscription subs).2 = handle := by
  rw [addSubscription]
  cases hidx : handle.m_subscriptions.findIdx? subs.cmpSubscribed with
  | none =>
    rw [List.findIdx?_eq_none_iff] at hidx
    have hself := hidx subs h
    rw [Subscription.cmpSubscribed_iff.mpr rfl] at hself
    contradiction
  | some ix =>
    obtain ⟨hlt, hcmp, -⟩ := List.findIdx?_eq_some_iff_getElem.mp hidx
    have hset : handle.m_subscriptions.set ix subs = handle.m_subscriptions := by
      conv_lhs => rw [Subscription.cmpSubscribed_iff.mp hcmp]
      exact List.set_getElem_self hlt
    simp only [hset]

theorem m_subscriptions_addSubscription (subs : Subscription) :
    (handle.addSubscription subs).2.m_subscriptions =
      if subs ∈ handle.m_subscriptions then handle.m_subscriptions
      else handle.m_subscriptions ++ [subs] := by
  by_cases hmem : subs ∈ handle.m_subscriptions
  · rw [if_pos hmem, addSubscription_of_mem hmem]
  · rw [if_neg hmem, addSubscription_of_notMem hmem]

/-- No call puts a subscription in twice. -/
theorem nodup_call (h : handle.m_subscriptions.Nodup) (c : SubscriptionCall) :
    (handle.call c).m_subscriptions.Nodup := by
  cases c with
  | addSubscription path method source =>
    rw [call, m_subscriptions_addSubscription]
    split
    · exact h
    · next hmem =>
      rw [List.nodup_append]
      refine ⟨h, List.nodup_singleton _, ?_⟩
      rintro a ha b hb rfl
      rw [List.mem_singleton.mp hb] at ha
      exact hmem ha
  | removeSubscription path method source =>
    rw [call, removeSubscription_eq]
    exact h.erase _

theorem nodup_calls (h : handle.m_subscriptions.Nodup) (cs : List SubscriptionCall) :
    (handle.calls cs).m_subscriptions.Nodup := by
  induction cs generalizing handle with
  | nil => exact h
  | cons c cs ih => exact ih (nodup_call h c)

/-- A call with a path that is stripped does what it says. -/
theorem call_stripped {c : SubscriptionCall} (h : OneSided c.path) :
    (handle.call c).m_subscriptions = c.strippedStep handle.m_subscriptions := by
  cases c with
  | addSubscription path method source =>
    have hpath : OneSided path := h
    rw [call, m_subscriptions_addSubscription, Subscription.new_eq_stripped hpath]
    rfl
  | removeSubscription path method source =>
    have hpath : OneSided path := h
    rw [call, removeSubscription_eq, Subscription.new_eq_stripped hpath]
    rfl

theorem calls_stripped {cs : List SubscriptionCall} (h : ∀ c ∈ cs, OneSided c.path) :
    (handle.calls cs).m_subscriptions =
      cs.foldl SubscriptionCall.strippedStep handle.m_subscriptions := by
  induction cs generalizing handle with
  | nil => rfl
  | cons c cs ih =>
    rw [List.foldl_cons, ← call_stripped (h c List.mem_cons_self)]
    exact ih fun c' hc' => h c' (List.mem_cons_of_mem _ hc')

/-- The constructor takes off all slashes around a path exactly if they are on one side. Whatever
is called with such paths on a connection without subscriptions, it has the stripped ones, each
once; one that was added with some slashes is removed with any others, and a signal matches it as
it matches the stripped one. -/
theorem subscriptions_ignoreSlashes (path method source : Bytes) (handle : CommonRpcClientHandle)
    (cs : List SubscriptionCall) :
    ((Subscription.new path method source).path = stripSlashes path ↔ OneSided path) ∧
    (handle.m_subscriptions = [] → (handle.calls cs).m_subscriptions.Nodup ∧
      ((∀ c ∈ cs, OneSided c.path) →
        (handle.calls cs).m_subscriptions = cs.foldl SubscriptionCall.strippedStep [] ∧
        ∀ path', OneSided path → OneSided path' → stripSlashes path = stripSlashes path' →
          (.new path method source ∈ (handle.calls cs).m_subscriptions →
            (handle.calls cs).removeSubscription (.new path' method source) =
              (true, { handle.calls cs with
                m_subscriptions :=
                  (handle.calls cs).m_subscriptions.erase (.stripped path method source) }) ∧
            .stripped path method source ∉
              ((handle.calls cs).removeSubscription
                (.new path' method source)).2.m_subscriptions) ∧
          ∀ signal_path signal_method signal_source,
            (Subscription.new path method source).matchSignal signal_path signal_method
                signal_source =
              (Subscription.stripped path method source).matchSignal signal_path signal_method
                signal_source)) := by
  refine ⟨Subscription.trimPath_eq_stripSlashes_iff, ?_⟩
  intro hnone
  have hnodup : (handle.calls cs).m_subscriptions.Nodup :=
    nodup_calls (by rw [hnone]; exact List.nodup_nil) cs
  refine ⟨hnodup, ?_⟩
  intro hcs
  refine ⟨by rw [calls_stripped hcs, hnone], ?_⟩
  intro path' hpath hpath' hsame
  have hnew := Subscription.new_eq_stripped hpath method source
  have hnew' : Subscription.new path' method source = .stripped path method source := by
    rw [Subscription.new_eq_stripped hpath', Subscription.ext_iff]
    exact ⟨hsame.symm, rfl, rfl⟩
  refine ⟨?_, fun _ _ _ => by rw [hnew]⟩
  intro hmem
  rw [hnew] at hmem
  rw [hnew', removeSubscription_eq]
  refine ⟨by rw [decide_eq_true hmem], ?_⟩
  exact hnodup.not_mem_erase

/-- With slashes on both sides one is left behind, and such a path does not remove what was added
without them. -/
theorem not_ignoreSlashes :
    (Subscription.new (ascii "/a/") [] []).path = ascii "a/" ∧
    stripSlashes (ascii "/a/") = ascii "a" ∧
    (CommonRpcClientHandle.mk 1 (.client false []) [] true []).calls
        [.addSubscription (ascii "a") [] [], .removeSubscription (ascii "/a/") [] []] =
      ⟨1, .client false [], [], true, [.stripped (ascii "a") [] []]⟩ := by
  refine ⟨rfl, rfl, ?_⟩
  rfl

end CommonRpcClientHandle

end LibShv
