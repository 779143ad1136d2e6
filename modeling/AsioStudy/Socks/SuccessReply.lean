import AsioStudy.Cpp.ByteOrder
import AsioStudy.Socks.Greeting
import AsioStudy.Socks.Socks4

/-!
# The success reply

`handle_client` from the greeting to the reply that it sends when `proxy_socket` is connected, and
the reading of a reply that RFC 1928 asks for.

The port goes through `htons`, the address does not.  The address is therefore sent backwards, and
only a palindrome survives this (`reportsEndpoint_iff`); with an IPv6 address, `to_v4` throws and no
reply is sent at all.
-/

namespace AsioStudy

namespace Socks

open Socks4 (Endpoint V4Bytes)

/-! ## Connecting -/

/-- `boost::asio::ip::address`. -/
inductive Address where
  | v4 (address : V4Bytes)
  | v6 (address : Vector UInt8 16)
  deriving DecidableEq, Repr

/-- The endpoint of an address and a port. -/
def Address.endpoint : Address → UInt16 → Endpoint
  | .v4 address, port => .v4 address port
  | .v6 address, port => .v6 address port

/-- The library and the network, as far as connecting depends on them. -/
structure Network where
  /-- `address::from_string`. -/
  fromString : Bytes → Except Exception Address
  /-- The first endpoint that `resolver.resolve` yields for a host and a service. -/
  resolve : Bytes → Bytes → Except Exception Endpoint
  /-- `proxy_socket.connect`, with the remote endpoint that `proxy_socket` has after it. -/
  connect : Endpoint → Except Exception Endpoint

/-- The endpoint that `handle_client` connects to. -/
def targetEndpoint (net : Network) (request : TargetRequest) : Except Exception Endpoint :=
  if request.domainName = [] then do
    let address ← net.fromString request.targetAddress
    pure (address.endpoint request.targetPort)
  else net.resolve request.domainName (decimal request.targetPort.toNat)

/-- The connection to the target, with its remote endpoint. -/
def connectTarget (net : Network) (request : TargetRequest) : Except Exception Endpoint := do
  let endpoint ← targetEndpoint net request
  net.connect endpoint

/-! ## The reply -/

/-- What ends `handle_client` before the relay. -/
inductive Abort where
  /-- An exception of the greeting, of the request or of the connection. -/
  | thrown (e : Exception)
  /-- The `bad_address_cast` of `to_v4`. -/
  | badAddressCast
  deriving DecidableEq, Repr

/-- `address::to_v4`. -/
def toV4 : Endpoint → Except Abort V4Bytes
  | .v4 address _ => .ok address
  | .v6 _ _ => .error .badAddressCast

/-- `endpoint::port`. -/
def Socks4.Endpoint.port : Endpoint → UInt16
  | .v4 _ port => port
  | .v6 _ port => port

/-- `address_v4::to_ulong`, in the order of the host. -/
def toUlong (address : V4Bytes) : UInt32 :=
  ofBytes32 (address.get 0) (address.get 1) (address.get 2) (address.get 3)

/-- The vector `reply_buf_`. -/
def successReply (remote : Endpoint) : Except Abort Bytes := do
  let address ← toV4 remote
  let realRemoteIP := toUlong address
  let realRemoteport := htons remote.port
  let replyBuf : Bytes := [0x05, 0x00, 0x00, 0x01, 0, 0, 0, 0, 0, 0]
  pure (overwrite (overwrite replyBuf 4 (memory32 realRemoteIP)) 8 (memory16 realRemoteport))

/-- What `handle_client` does before the relay. -/
structure Session where
  /-- What it writes to `client_socket`. -/
  written : Bytes
  /-- What it has not read when the relay starts, or the exception that it ends with. -/
  outcome : Except Abort Bytes
  deriving Repr

/-- `handle_client` up to the relay, on what the client sends. -/
def handleClient (net : Network) (ipv6ToString : Vector UInt8 16 → Bytes) (stream : Bytes) :
    Session :=
  match readHandshake stream with
  | .error e => ⟨[], .error (.thrown e)⟩
  | .ok (handshakeResponse, stream) =>
    match readRequest ipv6ToString stream with
    | .error e => ⟨handshakeResponse, .error (.thrown e)⟩
    | .ok (request, rest) =>
      match connectTarget net request with
      | .error e => ⟨handshakeResponse, .error (.thrown e)⟩
      | .ok remote =>
        match successReply remote with
        | .error e => ⟨handshakeResponse, .error e⟩
        | .ok reply => ⟨handshakeResponse ++ reply, .ok rest⟩

/-! ## Reading a reply -/

/-- The two bytes of a port in network order. -/
def portBytes (port : UInt16) : Bytes := [((port >>> 8) &&& 0xFF).toUInt8, (port &&& 0xFF).toUInt8]

/-- The address and the port of a reply, after its address type. -/
def decodeBound (atyp : UInt8) (rest : Bytes) : Option Endpoint :=
  match atyp, rest with
  | 0x01, [a, b, c, d, high, low] => some (.v4 #v[a, b, c, d] (targetPort #v[high, low]))
  | 0x04, [a, b, c, d, e, f, g, h, i, j, k, l, m, n, o, p, high, low] =>
    some (.v6 #v[a, b, c, d, e, f, g, h, i, j, k, l, m, n, o, p] (targetPort #v[high, low]))
  | _, _ => none

/-- A reply according to RFC 1928: its field REP and the endpoint that it reports. -/
def decodeReply : Bytes → Option (UInt8 × Endpoint)
  | 0x05 :: rep :: 0x00 :: atyp :: rest => (decodeBound atyp rest).map (rep, ·)
  | _ => none

/-- `handle_client` ends up connected to the remote endpoint, for a request that it accepts. -/
def Connects (net : Network) (ipv6ToString : Vector UInt8 16 → Bytes) (stream : Bytes)
    (remote : Endpoint) : Prop :=
  ∃ handshakeResponse request rest rest',
    readHandshake stream = .ok (handshakeResponse, rest) ∧
    readRequest ipv6ToString rest = .ok (request, rest') ∧
    connectTarget net request = .ok remote

/-- After the answer to the greeting, `handle_client` sends a reply that decodes to success and to
the remote endpoint; for an IPv4 address, it is the ten bytes that are asked for. -/
def ReportsEndpoint (session : Session) (remote : Endpoint) : Prop :=
  ∃ reply, session.written = [0x05, 0x00] ++ reply ∧ decodeReply reply = some (0x00, remote) ∧
    ∀ address port, remote = .v4 address port →
      reply = [0x05, 0x00, 0x00, 0x01] ++ address.toList ++ portBytes port

/-! ## What a client is told -/

/-- A greeting that is accepted is always answered in the same way. -/
lemma response_of_readHandshake {stream response rest : Bytes}
    (h : readHandshake stream = .ok (response, rest)) : response = [0x05, 0x00] := by
  have hrun : readHandshake stream =
      (read 3 stream >>= fun r =>
        (if r.1[0] ≠ 0x05 then throw (.runtimeError "[socks5_server] Invalid SOCKS5 version")
          else pure [0x05, 0x00] : SocketReader Bytes) r.2) := rfl
  rw [hrun] at h
  rcases hread : read 3 stream with e | r
  · rw [hread] at h
    cases h
  · rw [hread] at h
    have hanswer : (if r.1[0] ≠ 0x05 then
        throw (.runtimeError "[socks5_server] Invalid SOCKS5 version")
        else pure [0x05, 0x00] : SocketReader Bytes) r.2 = .ok (response, rest) := h
    by_cases hversion : r.1[0] ≠ 0x05
    · rw [if_pos hversion] at hanswer
      cases hanswer
    · rw [if_neg hversion] at hanswer
      exact (Prod.mk.inj (Except.ok.inj hanswer)).1.symm

/-- An IPv4 address by its four bytes. -/
lemma exists_bytes_eq (address : V4Bytes) : ∃ a b c d, address = #v[a, b, c, d] := by
  refine ⟨address[0], address[1], address[2], address[3], Vector.ext fun i hi => ?_⟩
  interval_cases i <;> rfl

/-- The bytes of an IPv4 address. -/
lemma bytes_inj {a b c d a' b' c' d' : UInt8}
    (h : (#v[a, b, c, d] : V4Bytes) = #v[a', b', c', d']) : a = a' ∧ b = b' ∧ c = c' ∧ d = d' := by
  have hlist : [a, b, c, d] = [a', b', c', d'] := congrArg Vector.toList h
  simpa using hlist

/-- What `handle_client` does when it is connected. -/
lemma handleClient_of_connects {net : Network} {ipv6ToString : Vector UInt8 16 → Bytes}
    {stream : Bytes} {remote : Endpoint} (h : Connects net ipv6ToString stream remote) :
    (∃ e, successReply remote = .error e ∧
      (handleClient net ipv6ToString stream).written = [0x05, 0x00]) ∨
    ∃ reply, successReply remote = .ok reply ∧
      (handleClient net ipv6ToString stream).written = [0x05, 0x00] ++ reply := by
  obtain ⟨response, request, rest, rest', hhandshake, hrequest, hconnect⟩ := h
  have hresponse := response_of_readHandshake hhandshake
  subst hresponse
  rcases hreply : successReply remote with e | reply
  · exact .inl ⟨e, rfl, by simp only [handleClient, hhandshake, hrequest, hconnect, hreply]⟩
  · exact .inr ⟨reply, rfl, by simp only [handleClient, hhandshake, hrequest, hconnect, hreply]⟩

/-- The reply for an IPv4 address has the address backwards and the port in network order. -/
lemma successReply_v4 (a b c d : UInt8) (port : UInt16) :
    successReply (.v4 #v[a, b, c, d] port) =
      .ok ([0x05, 0x00, 0x00, 0x01, d, c, b, a] ++ portBytes port) := by
  have haddress : memory32 (toUlong #v[a, b, c, d]) = [d, c, b, a] := memory32_ofBytes a b c d
  have hport : memory16 (htons port) = portBytes port := memory16_htons port
  have hrun : successReply (.v4 #v[a, b, c, d] port) =
      .ok (overwrite (overwrite [0x05, 0x00, 0x00, 0x01, 0, 0, 0, 0, 0, 0] 4
        (memory32 (toUlong #v[a, b, c, d]))) 8 (memory16 (htons port))) := rfl
  rw [hrun, haddress, hport]
  rfl

/-- What such a reply reports. -/
lemma decodeReply_v4 (a b c d : UInt8) (port : UInt16) :
    decodeReply ([0x05, 0x00, 0x00, 0x01, a, b, c, d] ++ portBytes port) =
      some (0x00, .v4 #v[a, b, c, d] port) :=
  congrArg (fun port => some (0x00, Endpoint.v4 #v[a, b, c, d] port)) (targetPort_bytes port)

/-- **The success reply.**  For every request that `handle_client` accepts and every endpoint that
it ends up connected to, it reports this endpoint if and only if the address is an IPv4 address that
reads the same in both directions. -/
theorem reportsEndpoint_iff {net : Network} {ipv6ToString : Vector UInt8 16 → Bytes}
    {stream : Bytes} {remote : Endpoint} (h : Connects net ipv6ToString stream remote) :
    ReportsEndpoint (handleClient net ipv6ToString stream) remote ↔
      ∃ a b port, remote = .v4 #v[a, b, b, a] port := by
  rcases handleClient_of_connects h with ⟨e, herror, hwritten⟩ | ⟨reply, hreply, hwritten⟩
  · constructor
    · rintro ⟨reply, hsent, hdecode, -⟩
      -- nothing is sent after the answer to the greeting
      rw [hwritten] at hsent
      obtain rfl : reply = [] := List.append_right_eq_self.mp hsent.symm
      cases hdecode
    · rintro ⟨a, b, port, rfl⟩
      rw [successReply_v4] at herror
      cases herror
  · rcases remote with ⟨address, port⟩ | ⟨address, port⟩
    · obtain ⟨a, b, c, d, rfl⟩ := exists_bytes_eq address
      rw [successReply_v4] at hreply
      obtain rfl := Except.ok.inj hreply
      constructor
      · rintro ⟨reply, hsent, hdecode, -⟩
        rw [hwritten] at hsent
        obtain rfl := List.append_cancel_left hsent
        rw [decodeReply_v4] at hdecode
        have hbound := (Prod.mk.inj (Option.some.inj hdecode)).2
        obtain ⟨-, rfl, -, rfl⟩ := bytes_inj (Endpoint.v4.inj hbound).1
        exact ⟨_, _, port, rfl⟩
      · rintro ⟨a', b', port', heq⟩
        obtain ⟨haddress, rfl⟩ := Endpoint.v4.inj heq
        obtain ⟨rfl, rfl, rfl, rfl⟩ := bytes_inj haddress
        refine ⟨_, hwritten, decodeReply_v4 d c c d port, ?_⟩
        rintro address port' heq
        obtain ⟨rfl, rfl⟩ := Endpoint.v4.inj heq
        rfl
    · cases hreply

/-- A network with one machine, which accepts every connection. -/
def localNetwork (address : V4Bytes) : Network where
  fromString s := if s = ipv4ToString address then .ok (.v4 address) else .error .failed
  resolve _ _ := .error .failed
  connect endpoint := .ok endpoint

/-- A connection to an address that reads the same in both directions. -/
theorem reportsEndpoint_palindrome :
    ReportsEndpoint
      (handleClient (localNetwork #v[10, 1, 1, 10]) (fun _ => [])
        [0x05, 0x01, 0x00, 0x05, 0x01, 0x00, 0x01, 10, 1, 1, 10, 0, 80])
      (.v4 #v[10, 1, 1, 10] 80) :=
  (reportsEndpoint_iff ⟨[0x05, 0x00], ⟨bytes "10.1.1.10", [], [], 80⟩,
    [0x05, 0x01, 0x00, 0x01, 10, 1, 1, 10, 0, 80], [], by decide +kernel, by decide +kernel,
    by decide +kernel⟩).mpr ⟨10, 1, 80, rfl⟩

/-- A client that asks for the port 80 of 127.0.0.1 is told that it is connected to 1.0.0.127. -/
theorem not_reportsEndpoint_localhost :
    Connects (localNetwork #v[127, 0, 0, 1]) (fun _ => [])
        [0x05, 0x01, 0x00, 0x05, 0x01, 0x00, 0x01, 127, 0, 0, 1, 0, 80]
        (.v4 #v[127, 0, 0, 1] 80) ∧
      ¬ ReportsEndpoint
        (handleClient (localNetwork #v[127, 0, 0, 1]) (fun _ => [])
          [0x05, 0x01, 0x00, 0x05, 0x01, 0x00, 0x01, 127, 0, 0, 1, 0, 80])
        (.v4 #v[127, 0, 0, 1] 80) := by
  constructor
  · exact ⟨[0x05, 0x00], ⟨bytes "127.0.0.1", [], [], 80⟩,
      [0x05, 0x01, 0x00, 0x01, 127, 0, 0, 1, 0, 80], [], by decide +kernel, by decide +kernel,
      by decide +kernel⟩
  · rintro ⟨reply, hsent, -, hbytes⟩
    have hwritten : (handleClient (localNetwork #v[127, 0, 0, 1]) (fun _ => [])
        [0x05, 0x01, 0x00, 0x05, 0x01, 0x00, 0x01, 127, 0, 0, 1, 0, 80]).written =
          [0x05, 0x00] ++ [0x05, 0x00, 0x00, 0x01, 1, 0, 0, 127, 0, 80] := by
      decide +kernel
    rw [hwritten] at hsent
    obtain rfl := List.append_cancel_left hsent
    exact absurd (hbytes #v[127, 0, 0, 1] 80 rfl) (by decide)

end Socks

end AsioStudy
