import MemDb.Cluster.Cas

/-! # What the calls of `CAS` do

    The requests of a call are `PREPARE` messages, and `ACCEPT` messages for what it proposes as
    soon as it has stopped to wait for promises. As long as that is so (`Wired`), a step is one of a
    few moves of nodes, calls and accepts (`Moves`), and what holds of the calls of a cluster is
    proved move by move.
-/

namespace MemDb

open CasCluster Option Function OperatorNumbers

/-! ### The cluster without its messages -/

/-- The target has stored the value of the proposer. -/
def Exchange.accepted : Exchange → Bool
  | .unsent => false
  | .sent request response _ =>
    request.operation.operatorNumber == CAS_ACCEPT &&
      response.any (·.isSuccessful)

/-- If the exchange is an `ACCEPT` and counts, it has been accepted. -/
def Exchange.Genuine (exchange : Exchange) : Prop :=
  ∀ request, exchange.request? = some request →
    request.operation.operatorNumber = CAS_ACCEPT → exchange.counts = true →
      exchange.accepted = true

/-- The call has returned success. -/
def CasCall.successful (call : CasCall) : Bool := call.response.any (·.isSuccessful)

structure CasSummary (n : Nat) where
  nodes : Fin n → Node
  calls : Fin n → Option CasCall
  /-- The target has accepted what the call at the proposer proposes. -/
  accepted : (proposer target : Fin n) → Prop

section
variable {n : Nat}

def CasCluster.summary (cluster : CasCluster n) : CasSummary n where
  nodes := cluster.nodes
  calls := cluster.calls
  accepted p t := ∃ b, (cluster.exchanges p b t).accepted = true

/-! ### Requests of calls -/

/-- A request that was broadcast for a call. While the call waits for promises it is a `PREPARE`; an
    `ACCEPT` is for a proposal with the property `P`. -/
inductive Request.OfCall (P : CasProposal → Prop) (config : Configuration) (call : Option CasCall) :
    Request → Prop where
  | prepare {operation : OperationBody}
      (operatorNumber : operation.operatorNumber = CAS_PREPARE) :
      OfCall P config call (prepareRequest config operation)
  | accept {c : CasCall} (hc : call = some c) (proposes : P c.toCasProposal)
      (state : c.state ≠ .WAITING_FOR_PROMISE) :
      OfCall P config call (prepareRequest config
        (sendAccept config c.key c.newValue c.prevTimestamp c.nextTimestamp))

/-- All requests are those of the calls, and calls that run propose what has the property. -/
structure CasCluster.Wired (configs : Fin n → Configuration) (P : Fin n → CasProposal → Prop)
    (cluster : CasCluster n) : Prop where
  calls : ∀ i call, cluster.calls i = some call → call.response = none → P i call.toCasProposal
  exchanges : ∀ p b t request, (cluster.exchanges p b t).request? = some request →
    p ≠ t ∧ request.OfCall (P p) (configs p) (cluster.calls p)
  /-- What a call waits for as accepts are responses to `ACCEPT`. -/
  awaiting : ∀ i call, cluster.calls i = some call → call.state = .WAITING_FOR_ACCEPT →
    ∀ t request, (cluster.exchanges i call.broadcasts t).request? = some request →
      request.operation.operatorNumber = CAS_ACCEPT

/-- A call makes an attempt: it is new, or it has waited for promises in vain. -/
inductive CasCluster.Attempting (cluster : CasCluster n) (i : Fin n) (before : CasCall) :
    CasEvent n → Prop where
  | call {operation : OperationBody} (hnone : cluster.calls i = none)
      (hstart : CasCall.start operation (cluster.nodes i).clock = some before) :
      Attempting cluster i before (.call i operation)
  | retry (hwaiting : cluster.waiting i .WAITING_FOR_PROMISE = some before) :
      Attempting cluster i before (.retry i)

/-- What an attempt in the event proposes, if the node stores the expected value, satisfies `P`. -/
def CasCluster.Proposes (cluster : CasCluster n) (configs : Fin n → Configuration)
    (P : Fin n → CasProposal → Prop) (event : CasEvent n) : Prop :=
  ∀ i before prevTimestamp, cluster.Attempting i before event →
    (cluster.nodes i).Stores ((configs i).calculateHash before.key)
      ⟨before.expectedValue, prevTimestamp⟩ → P i (before.next prevTimestamp)

/-- An `ACCEPT` of a call reaches its target only while that refuses it. -/
def CasEvent.Refused (configs : Fin n → Configuration) : CasEvent n → CasCluster n → Prop
  | .request p b t, cluster => ∀ request call, (cluster.exchanges p b t).request? = some request →
    request.operation.operatorNumber = CAS_ACCEPT → cluster.calls p = some call →
      (cluster.nodes t).Refuses (configs t) call.key call.prevTimestamp call.nextTimestamp
  | _, _ => True

/-- A send of `ACCEPT` that fails does not count as a success. -/
def CasEvent.uncounted : CasEvent n → CasCluster n → Bool
  | .failure p b t isSuccessful, cluster =>
    !isSuccessful || (cluster.exchanges p b t).request?.all fun request =>
      request.operation.operatorNumber != CAS_ACCEPT
  | _, _ => true

/-- What an event makes of nodes, calls and accepts. -/
inductive CasCluster.Moves (configs : Fin n → Configuration) (P : Fin n → CasProposal → Prop)
    (cluster : CasCluster n) : CasEvent n → CasSummary n → Prop where
  | attempt {event : CasEvent n} {i : Fin n} {before call : CasCall} {sent : Option OperationBody}
      (hbefore : cluster.Attempting i before event)
      (hrenewed : before.Renewed (configs i) (cluster.nodes i) call sent)
      (hnone : ∀ t, ¬ cluster.summary.accepted i t) :
      Moves configs P cluster event
        { cluster.summary with calls := update cluster.calls i (some call) }
  | propose {i : Fin n} {call : CasCall}
      (hwaiting : cluster.waiting i .WAITING_FOR_PROMISE = some call)
      (hnone : ∀ t, ¬ cluster.summary.accepted i t) :
      Moves configs P cluster (.promised i)
        { cluster.summary with calls := update cluster.calls i (some (call.accept (configs i)).1) }
  /-- `PREPARE` arrives, or an `ACCEPT` that is refused. -/
  | promise {p t : Fin n} {b : Nat} {rounds : UInt32 → Option AcceptatorPaxosRound}
      (hrefused : (CasEvent.request p b t).Refused configs cluster) :
      Moves configs P cluster (.request p b t)
        { cluster.summary with
          nodes := update cluster.nodes t
            { cluster.nodes t with paxosRoundsAcceptatorByKeyHash := rounds } }
  /-- An `ACCEPT` arrives, and the target writes the value. -/
  | accept {p t : Fin n} {b : Nat} {c : CasCall} {d : DataAVLNode} {result : Option DbEditResult}
      {node : Node} (hpt : p ≠ t) (hc : cluster.calls p = some c) (hP : P p c.toCasProposal)
      (hstate : c.state ≠ .WAITING_FOR_PROMISE)
      (hrequest : (cluster.exchanges p b t).request? = some (prepareRequest (configs p)
        (sendAccept (configs p) c.key c.newValue c.prevTimestamp c.nextTimestamp)))
      (hrefused : ¬ (CasEvent.request p b t).Refused configs cluster)
      (hd : (cluster.nodes t).Stores ((configs t).calculateHash c.key) d)
      (hle : d.timestamp ≤ c.prevTimestamp)
      (hwrites : (cluster.nodes t).Writes (configs t) c.key c.newValue c.nextTimestamp d result
        node) :
      Moves configs P cluster (.request p b t)
        { cluster.summary with
          nodes := update cluster.nodes t node
          accepted q r := cluster.summary.accepted q r ∨ result.isSome = true ∧ q = p ∧ r = t }
  | returned {p t : Fin n} {b : Nat} : Moves configs P cluster (.response p b t) cluster.summary
  | failed {p t : Fin n} {b : Nat} {isSuccessful : Bool} :
      Moves configs P cluster (.failure p b t isSuccessful) cluster.summary
  | abort {i : Fin n} {call : CasCall}
    (hwaiting : cluster.waiting i .WAITING_FOR_ACCEPT = some call) :
      Moves configs P cluster (.timeout i)
        { cluster.summary with calls := update cluster.calls i (some call.abort) }
  | commit {i : Fin n} {call call' : CasCall} {node : Node}
      (hwaiting : cluster.waiting i .WAITING_FOR_ACCEPT = some call)
      (hquorum : waitForSuccessfulQuorum (n - 1) (cluster.successfulResponses i call) = true)
      (hcommit : call.commit (configs i) (cluster.nodes i) = some (call', node)) :
      Moves configs P cluster (.commit i)
        { cluster.summary with
          nodes := update cluster.nodes i node
          calls := update cluster.calls i (some call') }
  | other {i : Fin n} {after : Node} :
      Moves configs P cluster (.other i after)
        { cluster.summary with nodes := update cluster.nodes i after }

end

section lemmas
variable {n : Nat} {configs : Fin n → Configuration} {P : Fin n → CasProposal → Prop}
  {cluster cluster' : CasCluster n} {exchange : Exchange}

theorem Exchange.request?_of_accepted (h : exchange.accepted = true) :
    ∃ request, exchange.request? = some request ∧
      request.operation.operatorNumber = CAS_ACCEPT := by
  cases exchange with
  | unsent => cases h
  | sent request response isSuccessful =>
    obtain ⟨hnumber, -⟩ := Bool.and_eq_true_iff.mp h
    exact ⟨request, rfl, eq_of_beq hnumber⟩

theorem Exchange.Genuine.accepted (h : exchange.Genuine)
    (hnumber : ∀ request, exchange.request? = some request →
      request.operation.operatorNumber = CAS_ACCEPT)
    (hcounts : exchange.counts = true) : exchange.accepted = true := by
  cases exchange with
  | unsent => cases hcounts
  | sent request response isSuccessful => exact h request rfl (hnumber request rfl) hcounts

theorem Exchange.not_accepted_pending {request : Request} (isSuccessful : Option Bool) :
    (Exchange.sent request none isSuccessful).accepted = false := Bool.and_false _

variable {p t i : Fin n} {b : Nat} {exchanges : Fin n → Nat → Fin n → Exchange}
  {operation : OperationBody} {call : CasCall} {event : CasEvent n}

theorem CasCluster.waiting_eq_some {state : ProposerPaxosState}
    (h : cluster.waiting i state = some call) :
    cluster.calls i = some call ∧ call.response = none ∧ call.state = state := by
  obtain ⟨hcall, hcond⟩ := filter_eq_some_iff.mp h
  obtain ⟨hresponse, hstate⟩ := Bool.and_eq_true_iff.mp hcond
  exact ⟨hcall, eq_of_beq hresponse, eq_of_beq hstate⟩

/-- Every call is the new one, or that of another node. -/
theorem update_calls {calls : Fin n → Option CasCall} {c : CasCall}
    (h : update calls i (some call) p = some c) :
    p = i ∧ c = call ∨ p ≠ i ∧ calls p = some c := by
  by_cases hp : p = i
  · subst hp
    rw [update_self] at h
    exact .inl ⟨rfl, (some.inj h).symm⟩
  · rw [update_of_ne hp] at h
    exact .inr ⟨hp, h⟩

/-- As long as the call waits for promises, nothing depends on it. -/
theorem Request.OfCall.of_waiting {Q : CasProposal → Prop} {config : Configuration}
    {before : Option CasCall} {request : Request} (h : request.OfCall Q config before)
    (hwaiting : ∀ c, before = some c → c.state = .WAITING_FOR_PROMISE) (after : Option CasCall) :
    request.OfCall Q config after := by
  cases h with
  | prepare hnumber => exact .prepare hnumber
  | accept hc _ hstate => exact absurd (hwaiting _ hc) hstate

theorem CasCluster.Attempting.before {before : CasCall}
    (h : cluster.Attempting i before event) :
    before.response = none ∧ before.state = .WAITING_FOR_PROMISE ∧
      ∀ c, cluster.calls i = some c → c.state = .WAITING_FOR_PROMISE := by
  cases h with
  | call hnone hstart =>
    simp only [CasCall.start, bind_eq_bind, bind_eq_some_iff] at hstart
    obtain ⟨key, -, expectedValue, -, newValue, -, hbefore⟩ := hstart
    cases hbefore
    refine ⟨rfl, rfl, ?_⟩
    intro c hc
    cases hnone.symm.trans hc
  | retry hwaiting =>
    obtain ⟨hcall, hresponse, hstate⟩ := waiting_eq_some hwaiting
    refine ⟨hresponse, hstate, ?_⟩
    intro c hc
    cases hcall.symm.trans hc
    exact hstate

/-! ### Changes of exchanges -/

/-- An exchange that goes on keeps its request. -/
theorem CasCluster.request?_setExchange
    (hrequest : exchange.request? = (cluster.exchanges p b t).request?) (q : Fin n) (b' : Nat)
    (r : Fin n) : ((cluster.setExchange p b t exchange).exchanges q b' r).request? =
      (cluster.exchanges q b' r).request? := by
  simp only [setExchange]
  split
  · next heq =>
    obtain ⟨rfl, rfl, rfl⟩ := heq
    exact hrequest
  · rfl

/-- What a call broadcasts before anybody has accepted it is not accepted yet. -/
theorem CasCluster.summary_broadcast (hnone : ∀ t, ¬ cluster.summary.accepted i t) (number : Nat) :
    ({ cluster.setCall i call with
        exchanges :=
          broadcast configs i number operation cluster.exchanges } : CasCluster n).summary =
      { cluster.summary with calls := update cluster.calls i (some call) } := by
  have haccepted :
      ∀ p b t, (broadcast configs i number operation cluster.exchanges p b t).accepted =
      (cluster.exchanges p b t).accepted := by
    intro p b t
    unfold broadcast
    split
    · next heq =>
      obtain ⟨rfl, -, -⟩ := heq
      rw [Exchange.not_accepted_pending]
      exact (Bool.eq_false_iff.mpr fun hold => hnone t ⟨b, hold⟩).symm
    · rfl
  simp only [summary, haccepted, setCall]

/-- What a target has answered shows in the accepts. -/
theorem CasCluster.summary_setExchange
    (hkeep : (cluster.exchanges p b t).accepted = true → exchange.accepted = true) :
    (cluster.setExchange p b t exchange).summary = { cluster.summary with
        accepted q r :=
          cluster.summary.accepted q r ∨ exchange.accepted = true ∧ q = p ∧ r = t } := by
  simp only [summary, setExchange, CasSummary.mk.injEq, true_and]
  funext q r
  refine propext ⟨?_, ?_⟩
  · rintro ⟨b', hb'⟩
    split at hb'
    · next heq => exact .inr ⟨hb', heq.1, heq.2.2⟩
    · exact .inl ⟨b', hb'⟩
  · rintro (⟨b', hb'⟩ | ⟨hexchange, rfl, rfl⟩)
    · refine ⟨b', ?_⟩
      split
      · next heq =>
        obtain ⟨rfl, rfl, rfl⟩ := heq
        exact hkeep hb'
      · exact hb'
    · exact ⟨b, by simp [hexchange]⟩

theorem CasCluster.summary_returned {request : Request} {response : Option Response}
    (hexchange : cluster.exchanges p b t = .sent request response none) (isSuccessful : Bool) :
    (cluster.setExchange p b t (.sent request response (some isSuccessful))).summary =
      cluster.summary := by
  have hsame : (Exchange.sent request response (some isSuccessful)).accepted =
      (cluster.exchanges p b t).accepted := by
    rw [hexchange]
    rfl
  rw [summary_setExchange hsame.ge, hsame]
  refine congrArg (CasSummary.mk _ _) (funext fun q => funext fun r => propext ?_)
  refine or_iff_left_of_imp ?_
  rintro ⟨haccepted, rfl, rfl⟩
  exact ⟨b, haccepted⟩

/-! ### Requests stay in order -/

section
variable (hexchanges : ∀ p b t, cluster.exchanges p b t = .unsent)
include hexchanges

theorem wired_start (hcalls : ∀ i, cluster.calls i = none) : cluster.Wired configs P := by
  refine ⟨?_, ?_, ?_⟩
  · intro i call hcall
    cases (hcalls i).symm.trans hcall
  · intro p b t request hrequest
    rw [hexchanges] at hrequest
    cases hrequest
  · intro i call hcall
    cases (hcalls i).symm.trans hcall

end

section
variable (h : cluster.Wired configs P)
include h

/-- Before `ACCEPT` is sent for a call, nobody has accepted it. -/
theorem CasCluster.Wired.not_accepted
    (hwaiting : ∀ c, cluster.calls p = some c → c.state = .WAITING_FOR_PROMISE) (t : Fin n) :
    ¬ cluster.summary.accepted p t := by
  rintro ⟨b, haccepted⟩
  obtain ⟨request, hrequest, hnumber⟩ := Exchange.request?_of_accepted haccepted
  obtain ⟨-, hof⟩ := h.exchanges p b t request hrequest
  cases hof with
  | prepare hprepare => exact absurd (hnumber.symm.trans hprepare) (by decide)
  | accept hc _ hstate => exact hstate (hwaiting _ hc)

theorem CasCluster.Wired.same_requests (hcalls : cluster'.calls = cluster.calls)
    (hrequests : ∀ p b t,
      (cluster'.exchanges p b t).request? = (cluster.exchanges p b t).request?) :
    cluster'.Wired configs P := by
  refine ⟨?_, ?_, ?_⟩
  · rw [hcalls]
    exact h.calls
  · intro p b t request hrequest
    rw [hrequests] at hrequest
    rw [hcalls]
    exact h.exchanges p b t request hrequest
  · intro i call hcall hstate t request hrequest
    rw [hcalls] at hcall
    rw [hrequests] at hrequest
    exact h.awaiting i call hcall hstate t request hrequest

/-- A call goes on, and may broadcast. -/
theorem CasCluster.Wired.setCall (hcalls : cluster'.calls = update cluster.calls i (some call))
    (hP : call.response = none → P i call.toCasProposal)
    (hold : ∀ request, Request.OfCall (P i) (configs i) (cluster.calls i) request →
      Request.OfCall (P i) (configs i) (some call) request)
    (hrequests : ∀ p b t request, (cluster'.exchanges p b t).request? = some request →
      (p = i ∧ t ≠ i ∧ request.OfCall (P i) (configs i) (some call)) ∨
        (cluster.exchanges p b t).request? = some request)
    (hawaiting : call.state = .WAITING_FOR_ACCEPT → ∀ t request,
      (cluster'.exchanges i call.broadcasts t).request? = some request →
        request.operation.operatorNumber = CAS_ACCEPT) :
    cluster'.Wired configs P := by
  refine ⟨?_, ?_, ?_⟩
  · intro p c hc hresponse
    rw [hcalls] at hc
    rcases update_calls hc with ⟨rfl, rfl⟩ | ⟨-, hc⟩
    · exact hP hresponse
    · exact h.calls p c hc hresponse
  · intro p b t request hrequest
    rw [hcalls]
    rcases hrequests p b t request hrequest with ⟨rfl, ht, hof⟩ | hrequest
    · rw [update_self]
      exact ⟨ht.symm, hof⟩
    · obtain ⟨hpt, hof⟩ := h.exchanges p b t request hrequest
      by_cases hp : p = i
      · subst hp
        rw [update_self]
        exact ⟨hpt, hold request hof⟩
      · rw [update_of_ne hp]
        exact ⟨hpt, hof⟩
  · intro p c hc hstate t request hrequest
    rw [hcalls] at hc
    rcases update_calls hc with ⟨rfl, rfl⟩ | ⟨hp, hc⟩
    · exact hawaiting hstate t request hrequest
    · rcases hrequests p c.broadcasts t request hrequest with ⟨hpi, -, -⟩ | hrequest
      · exact absurd hpi hp
      · exact h.awaiting p c hc hstate t request hrequest

/-- A call that has sent no `ACCEPT` yet broadcasts. -/
theorem CasCluster.Wired.broadcast
    (hwaiting : ∀ c, cluster.calls i = some c → c.state = .WAITING_FOR_PROMISE)
    (hP : P i call.toCasProposal)
    (hof : (prepareRequest (configs i) operation).OfCall (P i) (configs i) (some call))
    (hstate : call.state = .WAITING_FOR_ACCEPT →
      operation.operatorNumber = CAS_ACCEPT) :
    Wired configs P { cluster.setCall i call with
      exchanges := broadcast configs i call.broadcasts operation cluster.exchanges } := by
  refine h.setCall rfl (fun _ => hP) (fun _ hold => hold.of_waiting hwaiting _) ?_ ?_
  · intro p b t request hrequest
    simp only [CasCluster.broadcast] at hrequest
    split at hrequest
    · next heq =>
      cases hrequest
      exact .inl ⟨heq.1, heq.2.2, hof⟩
    · exact .inr hrequest
  · intro hc t request hrequest
    simp only [CasCluster.broadcast] at hrequest
    split at hrequest
    · cases hrequest
      exact hstate hc
    · next hother =>
      -- a call does not broadcast to its own node
      obtain ⟨hit, -⟩ := h.exchanges i _ t request hrequest
      exact absurd ⟨trivial, trivial, hit.symm⟩ hother

/-- A call returns. -/
theorem CasCluster.Wired.finish {call' : CasCall} (hcall : cluster.calls i = some call)
    (hcalls : cluster'.calls = update cluster.calls i (some call'))
    (hexchanges : cluster'.exchanges = cluster.exchanges)
    (hproposal : call'.toCasProposal = call.toCasProposal) (hresponse : call'.response ≠ none)
    (hstate : call'.state = .COMITTED ∨ call'.state = .FAILED) : cluster'.Wired configs P := by
  refine h.setCall hcalls (fun hnone => absurd hnone hresponse) ?_ ?_ ?_
  · intro request hof
    cases hof with
    | prepare hnumber => exact .prepare hnumber
    | accept hc hP hne =>
      cases hcall.symm.trans hc
      rw [← hproposal] at hP ⊢
      refine .accept rfl hP ?_
      rcases hstate with hstate | hstate <;> rw [hstate] <;> decide
  · intro p b t request hrequest
    rw [hexchanges] at hrequest
    exact .inr hrequest
  · intro haccept
    rcases hstate with hstate | hstate <;> rw [hstate] at haccept <;> cases haccept

end

/-! ### Requests at their targets -/

section
variable (hconfigs : Replicated configs) {node node' : Node} {response : Response}
include hconfigs

/-- A request of another node gets to its operator. -/
theorem onDeserialized_maintenance {request : Request} (operator : Operator) (hready : node.Ready)
    (hkey : request.authentication.authKey = (configs p).authNodeKey)
    (hoperator : operatorRegistry (configs t) (casOperators (configs t))
      request.operation.operatorNumber = some operator)
    (htype : operator.desc.type = .NODE_MAINTENANCE) (hproperties : operator.desc.properties = [])
    (hauthorized : isAuthorizedToExecute operator .NODE = true)
    (h : TCPServer.onDeserialized (configs t) (casOperators (configs t)) request node =
      some (node', response)) :
    ∃ options result, options.partitionId = 0 ∧
      operator.operate request.operation options node = some (node', result) ∧
      response.isSuccessful = result.isSuccessful := by
  rw [TCPServer.onDeserialized_node _ (hkey.trans (hconfigs.authNodeKey p t))
    (hconfigs.authApiUserKey t)] at h
  obtain ⟨⟨after, result⟩, hdispatch, hanswer⟩ := map_eq_some_iff.mp h
  cases hanswer
  rw [dispatch_maintenance { request with authenticationType := .NODE } hready hoperator htype
    hproperties hauthorized] at hdispatch
  exact ⟨_, result, rfl, hdispatch, rfl⟩

/-- `PREPARE` arrives. -/
theorem onDeserialized_prepare (hnumber : operation.operatorNumber = CAS_PREPARE)
    (hready : node.Ready) (h : TCPServer.onDeserialized (configs t) (casOperators (configs t))
      (prepareRequest (configs p) operation) node = some (node', response)) :
    ∃ rounds, node' = { node with paxosRoundsAcceptatorByKeyHash := rounds } := by
  have hoperator : operatorRegistry (configs t) (casOperators (configs t))
      operation.operatorNumber = some (PrepareCasOperator (configs t)) := by
    rw [hnumber]
    exact operatorRegistry_prepareCas (configs t)
  obtain ⟨options, result, -, hoperate, -⟩ := onDeserialized_maintenance hconfigs _ hready rfl
    hoperator rfl rfl rfl h
  exact operate_prepareCas hoperate

/-- `ACCEPT` arrives. -/
theorem onDeserialized_accept {key value : SimpleString}
    {prevTimestamp nextTimestamp : LamportClock} (hready : node.Ready)
    (h : TCPServer.onDeserialized (configs t) (casOperators (configs t)) (prepareRequest (configs p)
      (sendAccept (configs p) key value prevTimestamp nextTimestamp)) node =
        some (node', response)) :
    (node' = node ∧ response.isSuccessful = false ∧ node.Refuses (configs t) key prevTimestamp
        ⟨(configs p).nodeId, nextTimestamp.counter⟩) ∨
      ¬ node.Refuses (configs t) key prevTimestamp ⟨(configs p).nodeId, nextTimestamp.counter⟩ ∧
        ∃ d result, node.Stores ((configs t).calculateHash key) d ∧ d.timestamp ≤ prevTimestamp ∧
          node.Writes (configs t) key value ⟨(configs p).nodeId, nextTimestamp.counter⟩ d result
            node' ∧
          response.isSuccessful = result.isSome := by
  obtain ⟨options, result, hpartition, hoperate, hsuccess⟩ := onDeserialized_maintenance hconfigs _
    hready rfl (operatorRegistry_acceptCas (configs t)) rfl rfl rfl h
  rw [hsuccess]
  exact operate_acceptCas_cases hready hpartition rfl hoperate

/-! ### Steps -/

section
variable (h : cluster.Wired configs P) (hready : ∀ t, (cluster.nodes t).Ready)
include h hready

/-- A request arrives. -/
theorem CasCluster.Wired.request
    (hnodeId : ∀ p proposal, P p proposal → proposal.nextTimestamp.nodeId = (configs p).nodeId)
    {request : Request} {isSuccessful : Option Bool}
    (hexchange : cluster.exchanges p b t = .sent request none isSuccessful)
    (hstep : TCPServer.onDeserialized (configs t) (casOperators (configs t)) request
      (cluster.nodes t) = some (node, response)) :
    cluster.Moves configs P (.request p b t) ((cluster.setNode t node).setExchange p b t
      (.sent request (some response) isSuccessful)).summary := by
  have hrequest : (cluster.exchanges p b t).request? = some request := by
    rw [hexchange]
    rfl
  have hkeep : ((cluster.setNode t node).exchanges p b t).accepted = true →
      (Exchange.sent request (some response) isSuccessful).accepted = true := by
    intro haccepted
    rw [show (cluster.setNode t node).exchanges p b t = _ from hexchange,
      Exchange.not_accepted_pending] at haccepted
    cases haccepted
  obtain ⟨hpt, hof⟩ := h.exchanges p b t request hrequest
  rw [summary_setExchange hkeep]
  cases hof with
  -- a `PREPARE` changes the rounds of the node only
  | @prepare operation hnumber =>
    obtain ⟨rounds, rfl⟩ := onDeserialized_prepare hconfigs hnumber (hready t) hstep
    have hrejected : (Exchange.sent (prepareRequest (configs p) operation) (some response)
        isSuccessful).accepted = false := by
      show (operation.operatorNumber == CAS_ACCEPT && response.isSuccessful) = false
      rw [hnumber]
      rfl
    simp only [hrejected, Bool.false_eq_true, false_and, or_false]
    refine .promise ?_
    intro request' call hrequest' haccept
    cases hrequest.symm.trans hrequest'
    exact absurd (hnumber.symm.trans haccept) (by decide)
  | @accept c hc hP hstate =>
    have hanswer :
        (Exchange.sent (prepareRequest (configs p) (sendAccept (configs p) c.key c.newValue
        c.prevTimestamp c.nextTimestamp)) (some response) isSuccessful).accepted =
        response.isSuccessful := by
      simp [Exchange.accepted, prepareRequest, sendAccept]
    have hrefused : (CasEvent.request p b t).Refused configs cluster ↔
        (cluster.nodes t).Refuses (configs t) c.key c.prevTimestamp c.nextTimestamp := by
      simp [CasEvent.Refused, hrequest, prepareRequest, sendAccept, hc]
    have hcases := onDeserialized_accept hconfigs (hready t) hstep
    rw [show (⟨(configs p).nodeId, c.nextTimestamp.counter⟩ : LamportClock) = c.nextTimestamp by
      rw [← hnodeId p _ hP], ← hrefused] at hcases
    rw [hanswer]
    rcases hcases with ⟨rfl, hfailed, hrefuses⟩ | ⟨hrefuses, d, result, hd, hle, hwrites, hsuccess⟩
    · simp only [hfailed, Bool.false_eq_true, false_and, or_false]
      exact .promise hrefuses
    · rw [hsuccess]
      exact .accept hpt hc hP hstate hrequest hrefuses hd hle hwrites

/-- A pass of the loop of `sendRetriesPrepares`. -/
theorem CasCluster.Wired.attempt {before : CasCall}
    (hbefore : cluster.Attempting i before event)
    (hproposes : cluster.Proposes configs P event)
    (hprepare : cluster.prepare configs i before = some cluster') :
    cluster'.Wired configs P ∧ cluster.Moves configs P event cluster'.summary := by
  obtain ⟨⟨call, sent⟩, hcall, rfl⟩ := map_eq_some_iff.mp hprepare
  obtain ⟨hresponse, hstate, hwaiting⟩ := hbefore.before
  have hnone := h.not_accepted hwaiting
  cases renewed_of_prepare (hready i) (hconfigs.usePartitions i) hcall with
  | fails hfailed =>
    refine ⟨h.setCall rfl (fun hnone => by cases hnone) (fun _ hold => hold.of_waiting hwaiting _)
      (fun _ _ _ _ => .inr) ?_, .attempt hbefore (.fails hfailed) hnone⟩
    intro haccept
    rcases hfailed with rfl | rfl
    · cases haccept
    · rw [hstate] at haccept
      cases haccept
  | proposes hstored =>
    refine ⟨h.broadcast hwaiting (hproposes i _ _ hbefore hstored) (.prepare rfl)
      (fun haccept => by cases haccept), ?_⟩
    show cluster.Moves configs P event (CasCluster.summary { cluster.setCall i _ with
      exchanges := CasCluster.broadcast configs i _ _ cluster.exchanges })
    rw [summary_broadcast hnone]
    exact .attempt hbefore (.proposes hstored) hnone

/-- Every step is a move, and keeps the requests in order. -/
theorem CasCluster.Wired.step
    (hnodeId : ∀ p proposal, P p proposal → proposal.nextTimestamp.nodeId = (configs p).nodeId)
    (hproposes : cluster.Proposes configs P event)
    (hstep : CasCluster.step configs event cluster = some cluster') :
    cluster'.Wired configs P ∧ cluster.Moves configs P event cluster'.summary := by
  -- a broadcast replaces the requests of its call; every other step leaves the requests as they are
  cases event with
  | call i operation =>
    simp only [CasCluster.step] at hstep
    split at hstep
    · next hnone =>
      obtain ⟨before, hstart, hprepare⟩ := bind_eq_some_iff.mp hstep
      have hbefore : cluster.Attempting i before (.call i operation) :=
        .call (isNone_iff_eq_none.mp hnone) hstart
      exact h.attempt hconfigs hready hbefore hproposes hprepare
    · cases hstep
  | retry i =>
    obtain ⟨before, hwaiting, hprepare⟩ := bind_eq_some_iff.mp hstep
    have hbefore : cluster.Attempting i before (.retry i) := .retry hwaiting
    exact h.attempt hconfigs hready hbefore hproposes hprepare
  | request p b t =>
    obtain ⟨request, isSuccessful, node, response, hexchange, hresult, rfl⟩ := step_request hstep
    refine ⟨h.same_requests rfl (request?_setExchange ?_),
      h.request hconfigs hready hnodeId hexchange hresult⟩
    rw [show (cluster.setNode t node).exchanges p b t = _ from hexchange]
    rfl
  | response p b t =>
    obtain ⟨request, response, hexchange, rfl⟩ := step_response hstep
    refine ⟨h.same_requests rfl (request?_setExchange (by rw [hexchange]; rfl)), ?_⟩
    rw [summary_returned hexchange]
    exact .returned
  | failure p b t isSuccessful =>
    obtain ⟨request, response, hexchange, rfl⟩ := step_failure hstep
    refine ⟨h.same_requests rfl (request?_setExchange (by rw [hexchange]; rfl)), ?_⟩
    rw [summary_returned hexchange]
    exact .failed
  | promised i =>
    obtain ⟨call, hfilter, rfl⟩ := map_eq_some_iff.mp hstep
    have hwaiting := (filter_eq_some_iff.mp hfilter).1
    obtain ⟨hcall, hresponse, hstate⟩ := waiting_eq_some hwaiting
    -- no node has accepted for a call that still waits for promises
    have hpromise : ∀ c, cluster.calls i = some c → c.state = .WAITING_FOR_PROMISE := by
      intro c hc
      cases hcall.symm.trans hc
      exact hstate
    have hP := h.calls i call hcall hresponse
    have hof : (prepareRequest (configs i) (call.accept (configs i)).2).OfCall (P i) (configs i)
        (some (call.accept (configs i)).1) :=
      @Request.OfCall.accept _ _ _ (call.accept (configs i)).1 rfl hP (by simp [CasCall.accept])
    refine ⟨h.broadcast hpromise hP hof (fun _ => rfl), ?_⟩
    show cluster.Moves configs P (.promised i) (CasCluster.summary { cluster.setCall i _ with
      exchanges := CasCluster.broadcast configs i _ _ cluster.exchanges })
    rw [summary_broadcast (h.not_accepted hpromise)]
    exact .propose hwaiting (h.not_accepted hpromise)
  | timeout i =>
    obtain ⟨call, hwaiting, rfl⟩ := map_eq_some_iff.mp hstep
    obtain ⟨hcall, -, -⟩ := waiting_eq_some hwaiting
    exact ⟨h.finish hcall rfl rfl rfl (by simp [CasCall.abort]) (.inr rfl), .abort hwaiting⟩
  | commit i =>
    obtain ⟨call, hfilter, hcommit⟩ := bind_eq_some_iff.mp hstep
    obtain ⟨hwaiting, hquorum⟩ := filter_eq_some_iff.mp hfilter
    obtain ⟨⟨call', node⟩, hresult, rfl⟩ := map_eq_some_iff.mp hcommit
    obtain ⟨hcall, -, -⟩ := waiting_eq_some hwaiting
    refine ⟨?_, .commit hwaiting hquorum hresult⟩
    obtain ⟨hproposal, hresponse, hstate⟩ := commit_returns hresult
    exact h.finish hcall rfl rfl hproposal hresponse hstate
  | other i after =>
    cases hstep
    exact ⟨h.same_requests rfl (fun _ _ _ => rfl), .other⟩

end

end

/-! ### Accepts that count -/

theorem genuine_setExchange (h : ∀ p b t, (cluster.exchanges p b t).Genuine)
    (hexchange : exchange.Genuine) (q : Fin n) (b' : Nat) (r : Fin n) :
    ((cluster.setExchange p b t exchange).exchanges q b' r).Genuine := by
  simp only [setExchange]
  split
  · exact hexchange
  · exact h q b' r

theorem genuine_broadcast (h : ∀ p b t, (exchanges p b t).Genuine) (number : Nat) (p : Fin n)
    (b : Nat)
    (t : Fin n) : (CasCluster.broadcast configs i number operation exchanges p b t).Genuine := by
  unfold broadcast
  split
  · intro _ _ _ hcounts
    cases hcounts
  · exact h p b t

theorem genuine_prepare (h : ∀ p b t, (cluster.exchanges p b t).Genuine)
    (hprepare : cluster.prepare configs i call = some cluster') (p : Fin n) (b : Nat) (t : Fin n) :
    (cluster'.exchanges p b t).Genuine := by
  obtain ⟨⟨call', sent⟩, -, rfl⟩ := map_eq_some_iff.mp hprepare
  cases sent with
  | none => exact h p b t
  | some operation => exact genuine_broadcast h _ p b t

/-- As long as no failed send of `ACCEPT` counts, what counts has been accepted. -/
theorem genuine_step (h : ∀ p b t, (cluster.exchanges p b t).Genuine)
    (huncounted : event.uncounted cluster = true)
    (hstep : step configs event cluster = some cluster') :
    ∀ p b t, (cluster'.exchanges p b t).Genuine := by
  cases event with
  | call i operation =>
    simp only [step] at hstep
    split at hstep
    · obtain ⟨before, -, hprepare⟩ := bind_eq_some_iff.mp hstep
      exact genuine_prepare h hprepare
    · cases hstep
  | retry i =>
    obtain ⟨before, -, hprepare⟩ := bind_eq_some_iff.mp hstep
    exact genuine_prepare h hprepare
  | request p b t =>
    obtain ⟨request, isSuccessful, node, response, hexchange, -, rfl⟩ := step_request hstep
    refine genuine_setExchange h ?_
    -- what counts before the request has arrived is no `ACCEPT`
    intro request' hrequest hnumber hcounts
    cases (Exchange.not_accepted_pending _).symm.trans
      ((hexchange ▸ h p b t) request' hrequest hnumber hcounts)
  | response p b t =>
    obtain ⟨request, response, -, rfl⟩ := step_response hstep
    refine genuine_setExchange h ?_
    intro request' hrequest hnumber hcounts
    cases hrequest
    exact Bool.and_eq_true_iff.mpr ⟨beq_of_eq hnumber, hcounts⟩
  | failure p b t isSuccessful =>
    obtain ⟨request, response, hexchange, rfl⟩ := step_failure hstep
    refine genuine_setExchange h ?_
    intro request' hrequest hnumber hcounts
    cases hrequest
    obtain rfl : isSuccessful = true := hcounts
    simp [CasEvent.uncounted, hexchange, Exchange.request?, hnumber] at huncounted
  | promised i =>
    obtain ⟨call, -, rfl⟩ := map_eq_some_iff.mp hstep
    exact genuine_broadcast h _
  | timeout i =>
    obtain ⟨call, -, rfl⟩ := map_eq_some_iff.mp hstep
    exact h
  | commit i =>
    obtain ⟨call, -, hcommit⟩ := bind_eq_some_iff.mp hstep
    obtain ⟨⟨call', node⟩, -, rfl⟩ := map_eq_some_iff.mp hcommit
    exact h
  | other i after =>
    cases hstep
    exact h

open Lib.Election in
/-- A call that has its quorum has been accepted by half of the nodes besides its own. -/
theorem CasCluster.Wired.quorum (h : cluster.Wired configs P)
    (hgenuine : ∀ p b t, (cluster.exchanges p b t).Genuine)
    (hwaiting : cluster.waiting i .WAITING_FOR_ACCEPT = some call)
    (hquorum : waitForSuccessfulQuorum (n - 1) (cluster.successfulResponses i call) = true) :
    HasQuorum fun t => t ≠ i ∧ cluster.summary.accepted i t := by
  obtain ⟨hcall, -, hstate⟩ := waiting_eq_some hwaiting
  have hcard : Fintype.card (Fin n) / 2 ≤ cluster.successfulResponses i call := by
    have hpos : 0 < n := i.pos
    have hquorum := of_decide_eq_true hquorum
    rw [Fintype.card_fin]
    omega
  refine ⟨_, hcard.trans_eq (List.toFinset_card_of_nodup
    ((List.nodup_finRange n).filter _)).symm, ?_⟩
  intro t ht
  have hcounts := (List.mem_filter.mp (List.mem_toFinset.mp ht)).2
  have haccepted := (hgenuine i _ t).accepted (h.awaiting i call hcall hstate t) hcounts
  obtain ⟨request, hrequest, -⟩ := Exchange.request?_of_accepted haccepted
  exact ⟨(h.exchanges i _ t _ hrequest).1.symm, _, haccepted⟩

end lemmas

end MemDb
