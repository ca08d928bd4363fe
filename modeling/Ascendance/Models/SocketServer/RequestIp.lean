import Ascendance.Core.IpAddress

/-!
# The address that a handshake counts against

The limit of connection attempts is kept by address. Behind proxies the address is taken
from `X-Forwarded-For`, which every proxy extends by the address of its peer and whose
first part the client wrote: the header is walked from its end, as long as the function
that decides on trust accepts the address that wrote the item.
-/

namespace Ascendance.SocketServer

open Ascendance.Core

/-- An address without its brackets or its port. -/
def stripPort (raw : String) : String :=
  let trimmed := (trim raw).toList
  if trimmed.head? = some '[' then
    -- without a closing bracket the text stays as it is
    if ']' ∈ trimmed then String.ofList (trimmed.tail.takeWhile (· ≠ ']')) else trim raw
  else if trimmed.count ':' ≠ 1 then trim raw
  else
    let (host, maybePort) := aroundLast ':' trimmed
    if maybePort ≠ [] ∧ maybePort.length ≤ 5 ∧ maybePort.all isDecimalDigit then String.ofList host
    else trim raw

/-- A header as Node gives it. -/
inductive Header
  | absent
  | text (value : String)
  | texts (values : List String)
  deriving DecidableEq, Repr

/-- The part of a request that the address is read from. -/
structure IncomingMessage where
  /-- `req.socket.remoteAddress` -/
  remoteAddress : Option String
  /-- `req.headers["x-forwarded-for"]` -/
  xForwardedFor : Header

/-- Whether the proxy at an address is trusted at a hop. -/
abbrev TrustProxy := String → ℕ → Bool

/-- The loop over the items of the header, the last one first. -/
def walkHops (trustProxy : TrustProxy) : ℕ → String → List String → String
  | _, address, [] => address
  | hop, address, item :: hops =>
    if isIP address = 0 ∨ trustProxy address hop = false then address
    else if isIP (stripPort item) = 0 then address
    else walkHops trustProxy (hop + 1) (stripPort item) hops

/-- `String.prototype.split`, at commas. -/
def splitCommas (text : String) : List String := (text.toList.splitOn ',').map String.ofList

/-- `req.socket.remoteAddress || "unknown"`. -/
def IncomingMessage.peer (req : IncomingMessage) : String :=
  (nonempty req.remoteAddress).getD "unknown"

/-- The address that `getSocketIpRateLimitKey` makes its key of. -/
def socketAddress (req : IncomingMessage) (trustProxy : TrustProxy) : String :=
  match req.xForwardedFor with
  | .text forwarded => walkHops trustProxy 0 req.peer (splitCommas forwarded).reverse
  | .absent | .texts _ => req.peer

/-- The key is made by `ipKeyGenerator`, of networks of 56 bits. -/
def getSocketIpRateLimitKey {κ : Type*} (ipKeyGenerator : String → ℕ → κ) (req : IncomingMessage)
    (trustProxy : TrustProxy) : κ :=
  ipKeyGenerator (socketAddress req trustProxy) 56

/-- An address has no port to strip. -/
theorem stripPort_padded {pad : List Char} {address : String}
    (hpad : ∀ c ∈ pad, isSpace c = true) (h : isIP address ≠ 0) :
    stripPort (String.ofList (pad ++ address.toList)) = address := by
  have hchars := isAddressChar_of_isIP h
  have htrim := trim_padded hpad fun c hc => isSpace_of_isAddressChar (hchars c hc)
  have hbracket : address.toList.head? ≠ some '[' := by
    intro hhead
    have hopen := hchars '[' (List.mem_of_mem_head? hhead)
    cases hopen
  rw [stripPort, htrim, if_neg hbracket, if_pos (count_of_isIP h)]

/-- What a client or a proxy sends: its address and the header, if it sends one. -/
structure Request where
  peer : String
  forwarded : Option String

/-- A proxy, with the white space that it writes after a comma. -/
structure Proxy where
  address : String
  pad : List Char
  pad_isSpace : ∀ c ∈ pad, isSpace c = true

/-- A proxy appends the address of its peer. -/
def Proxy.relay (proxy : Proxy) (request : Request) : Request where
  peer := proxy.address
  forwarded := some <|
    match request.forwarded with
    | none => request.peer
    | some forwarded => String.ofList (forwarded.toList ++ ',' :: (proxy.pad ++
        request.peer.toList))

/-- What arrives when a request passes the proxies, of which the first one is the nearest. -/
def arriving (proxies : List Proxy) (request : Request) : Request :=
  proxies.foldr Proxy.relay request

/-- The request as the server receives it. -/
def Request.incoming (request : Request) : IncomingMessage where
  remoteAddress := some request.peer
  xForwardedFor :=
    match request.forwarded with
    | none => .absent
    | some forwarded => .text forwarded

/-- The items of the header, the last one first. -/
def Request.hops (request : Request) : List String :=
  match request.forwarded with
  | none => []
  | some forwarded => (splitCommas forwarded).reverse

/-- A relayed header ends in the address of the proxy's peer. -/
theorem relay_hops (proxy : Proxy) {request : Request} (hpeer : isIP request.peer ≠ 0) :
    ∃ item, (proxy.relay request).hops = item :: request.hops ∧
      stripPort item = request.peer := by
  have hcomma : ',' ∉ request.peer.toList := fun hmem => by
    cases isAddressChar_of_isIP hpeer ',' hmem
  unfold Proxy.relay Request.hops
  cases request.forwarded with
  | none =>
    refine ⟨request.peer, ?_, ?_⟩
    · simp only [splitCommas, List.splitOn_eq_singleton hcomma, List.map_cons, List.map_nil,
        String.ofList_toList, List.reverse_singleton]
    · have hnone : ∀ c ∈ ([] : List Char), isSpace c = true := List.forall_mem_nil _
      have hstrip := stripPort_padded hnone hpeer
      rwa [List.nil_append, String.ofList_toList] at hstrip
  | some forwarded =>
    have hitem : ',' ∉ proxy.pad ++ request.peer.toList := by
      intro hmem
      rcases List.mem_append.mp hmem with hpad | hmem
      · cases proxy.pad_isSpace ',' hpad
      · exact hcomma hmem
    refine ⟨String.ofList (proxy.pad ++ request.peer.toList), ?_,
      stripPort_padded proxy.pad_isSpace hpeer⟩
    simp only [splitCommas, String.toList_ofList, List.splitOn_append_cons_self,
      List.splitOn_eq_singleton hitem, List.map_append, List.map_cons, List.map_nil,
      List.reverse_append, List.reverse_singleton, List.singleton_append]

/-- The loop goes back along the proxies to the client. -/
theorem walkHops_arriving {trustProxy : TrustProxy} {proxies : List Proxy} {client : Request}
    {hop : ℕ} (hvalid : ∀ proxy ∈ proxies, isIP proxy.address ≠ 0)
    (htrusted : ∀ i (hi : i < proxies.length),
      trustProxy proxies[i].address (hop + i) = true)
    (hclient : isIP client.peer ≠ 0) (huntrusted : trustProxy client.peer (hop + proxies.length) =
      false) :
    walkHops trustProxy hop (arriving proxies client).peer (arriving proxies client).hops =
      client.peer := by
  induction proxies generalizing hop with
  | nil =>
    change walkHops trustProxy hop client.peer client.hops = client.peer
    cases client.hops with
    | nil => rfl
    | cons item hops =>
      rw [walkHops, if_pos]
      exact .inr huntrusted
  | cons proxy proxies ih =>
    have hpeer : isIP (arriving proxies client).peer ≠ 0 := by
      cases proxies with
      | nil => exact hclient
      | cons next proxies => exact hvalid next (List.mem_cons_of_mem _ List.mem_cons_self)
    obtain ⟨item, hhops, hitem⟩ := relay_hops proxy hpeer
    have hhead : trustProxy proxy.address hop = true := htrusted 0 (Nat.succ_pos _)
    change walkHops trustProxy hop proxy.address (proxy.relay (arriving proxies client)).hops = _
    rw [hhops, walkHops, if_neg, hitem, if_neg hpeer]
    · refine ih (fun next hnext => hvalid next (List.mem_cons_of_mem _ hnext)) (fun i hi => ?_) ?_
      · have hi' := htrusted (i + 1) (Nat.succ_lt_succ hi)
        rwa [List.getElem_cons_succ, ← Nat.add_assoc, Nat.add_right_comm] at hi'
      · rwa [Nat.add_right_comm, Nat.add_assoc]
    · simp [hhead, hvalid proxy List.mem_cons_self]

/-- Whatever the header, the loop ends at a valid address or where it began. -/
theorem isIP_walkHops (trustProxy : TrustProxy) (hop : ℕ) (address : String)
    (hops : List String) : isIP (walkHops trustProxy hop address hops) ≠ 0 ∨
      walkHops trustProxy hop address hops = address := by
  induction hops generalizing hop address with
  | nil => exact .inr rfl
  | cons item hops ih =>
    rw [walkHops]
    split
    · exact .inr rfl
    · split
      · exact .inr rfl
      · next hitem =>
        refine .inl ?_
        rcases ih (hop + 1) (stripPort item) with hvalid | heq
        · exact hvalid
        · rwa [heq]

/-- An address is a text that is not empty, so that it is the peer of the incoming message. -/
theorem socketAddress_incoming (trustProxy : TrustProxy) {request : Request}
    (hpeer : isIP request.peer ≠ 0) :
    socketAddress request.incoming trustProxy =
      walkHops trustProxy 0 request.peer request.hops := by
  have hincoming : request.incoming.peer = request.peer := by
    have hne : request.peer ≠ "" := fun hnil => isIP_ne_nil hpeer (hnil ▸ rfl)
    simp [IncomingMessage.peer, Request.incoming, nonempty, Option.filter_some, hne]
  unfold socketAddress
  rw [hincoming]
  unfold Request.incoming Request.hops
  cases request.forwarded with
  | none => rfl
  | some forwarded => rfl

/-- The key is the one of the client's address, whatever the client writes into the header;
and the address of a key is always valid or that of the peer. -/
theorem rateLimitKey_unforgeable {κ : Type*} (ipKeyGenerator : String → ℕ → κ)
    (trustProxy : TrustProxy) :
    (∀ (proxies : List Proxy) (client : Request),
      (∀ proxy ∈ proxies, isIP proxy.address ≠ 0) →
      (∀ i (hi : i < proxies.length), trustProxy proxies[i].address i = true) →
      isIP client.peer ≠ 0 → trustProxy client.peer proxies.length = false →
      getSocketIpRateLimitKey ipKeyGenerator (arriving proxies client).incoming trustProxy =
        ipKeyGenerator client.peer 56) ∧
    ∀ req : IncomingMessage,
      isIP (socketAddress req trustProxy) ≠ 0 ∨ socketAddress req trustProxy = req.peer := by
  constructor
  · intro proxies client hvalid htrusted hclient huntrusted
    have htrusted : ∀ i (hi : i < proxies.length),
        trustProxy proxies[i].address (0 + i) = true :=
      fun i hi => (Nat.zero_add i).symm ▸ htrusted i hi
    have hwalk := walkHops_arriving hvalid htrusted hclient
      ((Nat.zero_add proxies.length).symm ▸ huntrusted)
    rw [getSocketIpRateLimitKey, socketAddress_incoming, hwalk]
    cases proxies with
    | nil => exact hclient
    | cons proxy proxies => exact hvalid proxy List.mem_cons_self
  · intro req
    rw [socketAddress]
    split
    · exact isIP_walkHops trustProxy 0 req.peer _
    · exact .inr rfl
    · exact .inr rfl

/-- One trusted proxy, and a client that pretends to be behind another one. -/
theorem rateLimitKey_unforgeable_prefixed :
    getSocketIpRateLimitKey Prod.mk
      (arriving [⟨"10.0.0.1", [' '], List.forall_mem_singleton.mpr (by decide)⟩]
        ⟨"203.0.113.9", some "8.8.8.8, [::1]:80,"⟩).incoming
      (fun address hop => address == "10.0.0.1" && hop == 0) = ("203.0.113.9", 56) :=
  (rateLimitKey_unforgeable Prod.mk _).1 _ _ (by decide +kernel) (by decide +kernel)
    (by decide +kernel) (by decide +kernel)

end Ascendance.SocketServer
