import AsioStudy.Socks.Request

/-!
# SOCKS4 messages

The classes `request` and `reply` of `socks4.hpp`: a request is written from seven buffers, a reply
is read into five.

A request ends at the first NUL behind its address, so that a NUL in the user id ends it early
(`socks4_request_iff`).  The last of the five buffers of a reply is one byte long instead of four,
so that a reply is never read whole (`not_readsReply`).
-/

namespace AsioStudy

namespace Socks

namespace Socks4

open StreamReader

/-- `address_v4::bytes_type`, an address in network byte order. -/
abbrev V4Bytes := Vector UInt8 4

/-- `tcp::endpoint`. -/
inductive Endpoint where
  | v4 (address : V4Bytes) (port : UInt16)
  | v6 (address : Vector UInt8 16) (port : UInt16)
  deriving DecidableEq, Repr

/-- The constant `version`. -/
def version : UInt8 := 0x04

/-! ## Requests -/

/-- `request::command_type`. -/
inductive CommandType where
  | connect
  | bind
  deriving DecidableEq, Repr

/-- The value of an enumerator. -/
def CommandType.code : CommandType → UInt8
  | .connect => 0x01
  | .bind => 0x02

/-- The class `request`. -/
structure Request where
  version : UInt8
  command : UInt8
  portHighByte : UInt8
  portLowByte : UInt8
  address : V4Bytes
  userId : Bytes
  nullByte : UInt8
  deriving DecidableEq, Repr

/-- The error with which the constructor of `request` throws. -/
inductive ConstructionError where
  | addressFamilyNotSupported
  deriving DecidableEq, Repr

/-- The constructor of `request`. -/
def Request.make (cmd : CommandType) (endpoint : Endpoint) (userId : Bytes) :
    Except ConstructionError Request :=
  match endpoint with
  | .v6 _ _ => .error .addressFamilyNotSupported
  | .v4 address port =>
    .ok
      { version := Socks4.version
        command := cmd.code
        portHighByte := ((port >>> 8) &&& 0xFF).toUInt8
        portLowByte := (port &&& 0xFF).toUInt8
        address := address
        userId := userId
        nullByte := 0 }

/-- `request::buffers`, given by the bytes they refer to. -/
def Request.buffers (r : Request) : List Bytes :=
  [[r.version], [r.command], [r.portHighByte], [r.portLowByte], r.address.toList, r.userId,
    [r.nullByte]]

/-- What a server takes from a request. -/
structure ServerRequest where
  version : UInt8
  command : UInt8
  port : UInt16
  address : V4Bytes
  userId : Bytes
  deriving DecidableEq, Repr

/-- The server that the protocol asks for: it reads the version, the command, the port and the
address, each with its length, and the user id up to the first NUL. -/
def readServerRequest : SocketReader ServerRequest := do
  let version ← read 1
  let command ← read 1
  let port ← read 2
  let address ← read 4
  let userId ← readUpTo .eof 0
  pure ⟨version.head, command.head, targetPort port, address, userId⟩

/-- A server recovers from the buffers of a request what it was made from, and is left with what was
sent after it. -/
def Request.IsRecovered (r : Request) (cmd : CommandType) (endpoint : Endpoint) (userId t : Bytes) :
    Prop :=
  ∃ address port, endpoint = .v4 address port ∧
    readServerRequest (r.buffers.flatten ++ t) =
      .ok (⟨Socks4.version, cmd.code, port, address, userId⟩, t)

/-- A server reads the user id up to the first NUL. -/
lemma consumes_readServerRequest (version command : UInt8) (port : Vector UInt8 2)
    (address : V4Bytes) {userId : Bytes} (h : 0 ∉ userId) :
    Consumes readServerRequest
      ([version] ++ ([command] ++ (port.toList ++ (address.toList ++ (userId ++ [0])))))
      ⟨version, command, targetPort port, address, userId⟩ := by
  have huser : Consumes
      (readUpTo Exception.eof 0 >>= fun userId =>
        pure (⟨version, command, targetPort port, address, userId⟩ : ServerRequest))
      (userId ++ [0] ++ []) ⟨version, command, targetPort port, address, userId⟩ :=
    (consumes_readUpTo Exception.eof h).bind (consumes_pure _)
  rw [List.append_nil] at huser
  exact (consumes_readVector Exception.eof #v[version]).bind
    ((consumes_readVector Exception.eof #v[command]).bind
      ((consumes_readVector Exception.eof port).bind
        ((consumes_readVector Exception.eof address).bind huser)))

/-- The bytes of a request whose user id is `userId`, with `rest` behind its NUL. -/
def requestBytes (cmd : CommandType) (address : V4Bytes) (port : UInt16) (userId rest : Bytes) :
    Bytes :=
  [version] ++ ([cmd.code] ++ ([((port >>> 8) &&& 0xFF).toUInt8, (port &&& 0xFF).toUInt8] ++
    (address.toList ++ (userId ++ 0 :: rest))))

/-- What a server makes of these bytes. -/
lemma readServerRequest_requestBytes (cmd : CommandType) (address : V4Bytes) (port : UInt16)
    {userId : Bytes} (h : 0 ∉ userId) (rest : Bytes) :
    readServerRequest (requestBytes cmd address port userId rest) =
      .ok (⟨version, cmd.code, port, address, userId⟩, rest) := by
  have hrun := consumes_readServerRequest version cmd.code
    #v[((port >>> 8) &&& 0xFF).toUInt8, (port &&& 0xFF).toUInt8] address h rest
  rw [targetPort_bytes] at hrun
  rw [← hrun]
  simp [requestBytes]

/-- The buffers of a request hold its bytes. -/
lemma buffers_of_make {cmd : CommandType} {address : V4Bytes} {port : UInt16} {userId : Bytes}
    {r : Request} (hr : Request.make cmd (.v4 address port) userId = .ok r) (t : Bytes) :
    r.buffers.flatten ++ t = requestBytes cmd address port userId t := by
  cases hr
  simp [Request.buffers, requestBytes]

/-- **Requests.**  Whatever is sent after it, a request is recovered from its buffers if and only if
there is no NUL in its user id. -/
theorem socks4_request_iff {cmd : CommandType} {endpoint : Endpoint} {userId : Bytes} {r : Request}
    (hr : Request.make cmd endpoint userId = .ok r) (t : Bytes) :
    r.IsRecovered cmd endpoint userId t ↔ 0 ∉ userId := by
  cases endpoint with
  | v6 address port => cases hr
  | v4 address port =>
    have hbytes := buffers_of_make hr t
    constructor
    · rintro ⟨address', port', -, hrun⟩ hzero
      -- the server takes the part before the first NUL for the user id
      obtain ⟨user, rest, rfl, huser⟩ := List.eq_append_cons_of_mem hzero
      have hcut : requestBytes cmd address port (user ++ 0 :: rest) t =
          requestBytes cmd address port user (rest ++ 0 :: t) := by
        simp [requestBytes]
      rw [hbytes, hcut, readServerRequest_requestBytes cmd address port huser] at hrun
      have hsame : user = user ++ 0 :: rest :=
        congrArg ServerRequest.userId (Prod.mk.inj (Except.ok.inj hrun)).1
      have hlength := congrArg List.length hsame
      rw [List.length_append, List.length_cons] at hlength
      omega
    · intro hzero
      refine ⟨address, port, rfl, ?_⟩
      rw [hbytes]
      exact readServerRequest_requestBytes cmd address port hzero t

/-- A request with a user id, before other data. -/
theorem socks4_request_iff_user :
    Request.IsRecovered
      ⟨0x04, 0x01, 0x00, 0x50, #v[127, 0, 0, 1], bytes "user", 0⟩ .connect
      (.v4 #v[127, 0, 0, 1] 80) (bytes "user") (bytes "GET /") :=
  (socks4_request_iff rfl (bytes "GET /")).mpr (by decide)

/-- The user id `a`, NUL, `b`: the server reads the user id `a` and is left with a `b` and a NUL
before the data. -/
theorem socks4_request_cut :
    ∃ r, Request.make .connect (.v4 #v[127, 0, 0, 1] 80) [ch 'a', 0, ch 'b'] = .ok r ∧
      ¬ r.IsRecovered .connect (.v4 #v[127, 0, 0, 1] 80) [ch 'a', 0, ch 'b'] [] := by
  refine ⟨_, rfl, ?_⟩
  rintro ⟨address, port, -, hrun⟩
  have hcut : requestBytes .connect #v[127, 0, 0, 1] 80 [ch 'a', 0, ch 'b'] [] =
      requestBytes .connect #v[127, 0, 0, 1] 80 [ch 'a'] [ch 'b', 0] := rfl
  rw [buffers_of_make rfl, hcut,
    readServerRequest_requestBytes .connect #v[127, 0, 0, 1] 80 (by decide)] at hrun
  have hsame : [ch 'a'] = [ch 'a', 0, ch 'b'] :=
    congrArg ServerRequest.userId (Prod.mk.inj (Except.ok.inj hrun)).1
  cases hsame

/-! ## Replies -/

/-- The class `reply`. -/
structure Reply where
  nullByte : UInt8
  status : UInt8
  portHighByte : UInt8
  portLowByte : UInt8
  address : V4Bytes
  deriving DecidableEq, Repr

/-- The members of a `reply`. -/
inductive ReplyMember where
  | nullByte
  | status
  | portHighByte
  | portLowByte
  | address
  deriving DecidableEq, Repr

/-- A `mutable_buffer` at the beginning of a member. -/
structure MutableBuffer where
  /-- The member. -/
  member : ReplyMember
  /-- The number of bytes. -/
  size : ℕ
  deriving DecidableEq, Repr

/-- `reply::buffer`. -/
def Reply.buffer : List MutableBuffer :=
  [⟨.nullByte, 1⟩, ⟨.status, 1⟩, ⟨.portHighByte, 1⟩, ⟨.portLowByte, 1⟩,
    -- `boost::asio::buffer(address_, 1)`
    ⟨.address, min 4 1⟩]

/-- Put bytes at the beginning of a member. -/
def Reply.store (r : Reply) (data : Bytes) : ReplyMember → Reply
  | .nullByte => { r with nullByte := data.headD r.nullByte }
  | .status => { r with status := data.headD r.status }
  | .portHighByte => { r with portHighByte := data.headD r.portHighByte }
  | .portLowByte => { r with portLowByte := data.headD r.portLowByte }
  | .address => { r with address := Vector.ofFn fun i => data.getD i r.address[i] }

/-- `boost::asio::read` into a sequence of buffers, which are filled one after the other. -/
def readBuffers (r : Reply) : List MutableBuffer → SocketReader Reply
  | [] => pure r
  | b :: buffers => do
    let data ← read b.size
    readBuffers (r.store data.toList b.member) buffers

/-- `request_granted`. -/
def requestGranted : UInt8 := 0x5a

/-- `reply::success`. -/
def Reply.success (r : Reply) : Bool := r.nullByte == 0 && r.status == requestGranted

/-- `reply::endpoint`. -/
def Reply.endpoint (r : Reply) : Endpoint :=
  .v4 r.address (((r.portHighByte.toUInt16 <<< 8) &&& (0xFF00 : UInt16)) ||| r.portLowByte.toUInt16)

/-- The eight bytes of a reply of a server. -/
def replyBytes (first status : UInt8) (port : UInt16) (address : V4Bytes) : Bytes :=
  [first, status, ((port >>> 8) &&& 0xFF).toUInt8, (port &&& 0xFF).toUInt8] ++ address.toList

/-- Reading into the buffers of `prev` takes the eight bytes of a reply and nothing of what follows,
and the object tells its status and its endpoint. -/
def ReadsReply (prev : Reply) (first status : UInt8) (port : UInt16) (address : V4Bytes)
    (rest : Bytes) : Prop :=
  ∃ r, readBuffers prev Reply.buffer (replyBytes first status port address ++ rest) =
      .ok (r, rest) ∧
    (r.success = true ↔ first = 0 ∧ status = 0x5a) ∧ r.endpoint = .v4 address port

/-- One byte stored in the address. -/
lemma ofFn_getD_eq_setIfInBounds (address : V4Bytes) (a : UInt8) :
    (Vector.ofFn fun i : Fin 4 => [a].getD i address[i]) = address.setIfInBounds 0 a := by
  ext i hi
  rw [Vector.getElem_ofFn, Vector.getElem_setIfInBounds hi]
  cases i with
  | zero => rfl
  | succ i => rfl

/-- The buffers take five bytes. -/
lemma consumes_buffer (prev : Reply) (first status high low a : UInt8) :
    Consumes (readBuffers prev Reply.buffer) [first, status, high, low, a]
      ⟨first, status, high, low, prev.address.setIfInBounds 0 a⟩ := by
  rw [← ofFn_getD_eq_setIfInBounds]
  exact (consumes_readVector Exception.eof #v[first]).bind
    ((consumes_readVector Exception.eof #v[status]).bind
      ((consumes_readVector Exception.eof #v[high]).bind
        ((consumes_readVector Exception.eof #v[low]).bind
          ((consumes_readVector Exception.eof #v[a]).bind (consumes_pure _)))))

/-- What a read makes of a reply: the status and the port are right, but only the first byte of the
address is read, and the other three are left in the stream. -/
lemma readBuffers_replyBytes (prev : Reply) (first status : UInt8) (port : UInt16)
    (address : V4Bytes) (rest : Bytes) :
    ∃ r, readBuffers prev Reply.buffer (replyBytes first status port address ++ rest) =
        .ok (r, address.toList.drop 1 ++ rest) ∧
      (r.success = true ↔ first = 0 ∧ status = 0x5a) ∧
      r.endpoint = .v4 (prev.address.setIfInBounds 0 address.head) port := by
  refine ⟨⟨first, status, ((port >>> 8) &&& 0xFF).toUInt8, (port &&& 0xFF).toUInt8,
    prev.address.setIfInBounds 0 address.head⟩, ?_, ?_, ?_⟩
  · have hlist : address.toList = address.head :: address.toList.drop 1 := by
      have hlength : 0 < address.toList.length := by simp
      exact (List.getElem_cons_drop hlength).symm
    have hbytes : replyBytes first status port address ++ rest =
        [first, status, ((port >>> 8) &&& 0xFF).toUInt8, (port &&& 0xFF).toUInt8, address.head] ++
          (address.toList.drop 1 ++ rest) := by
      rw [replyBytes, hlist]
      rfl
    rw [hbytes]
    exact consumes_buffer prev first status _ _ address.head _
  · simp [Reply.success, requestGranted]
  · exact congrArg (Endpoint.v4 _) (targetPort_bytes port)

/-- **Replies.**  No reply is read whole: whatever the reply is, whatever the object was before and
whatever follows, not exactly the eight bytes are taken. -/
theorem not_readsReply (prev : Reply) (first status : UInt8) (port : UInt16) (address : V4Bytes)
    (rest : Bytes) : ¬ ReadsReply prev first status port address rest := by
  rintro ⟨r, hrun, -⟩
  obtain ⟨r', hrun', -⟩ := readBuffers_replyBytes prev first status port address rest
  rw [hrun'] at hrun
  have hrest := congrArg List.length (Prod.mk.inj (Except.ok.inj hrun)).2
  rw [List.length_append, List.length_drop, Vector.length_toList] at hrest
  omega

/-- The reply that grants a request to the port 80 of 127.0.0.1: its last three bytes are left in
the stream. -/
theorem reply_left_in_stream :
    ¬ ReadsReply ⟨0, 0, 0, 0, #v[0, 0, 0, 0]⟩ 0 0x5a 80 #v[127, 0, 0, 1] [] := by
  rintro ⟨r, hrun, -⟩
  have hleft : readBuffers ⟨0, 0, 0, 0, #v[0, 0, 0, 0]⟩ Reply.buffer
      (replyBytes 0 0x5a 80 #v[127, 0, 0, 1] ++ []) =
        .ok (⟨0, 0x5a, 0, 80, #v[127, 0, 0, 0]⟩, [0, 0, 1]) := by
    decide +kernel
  rw [hleft] at hrun
  cases hrun

end Socks4

end Socks

end AsioStudy
