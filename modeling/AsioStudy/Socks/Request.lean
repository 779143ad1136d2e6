import AsioStudy.Cpp.Text
import AsioStudy.Foundation.StreamReader

/-!
# Connection requests

The connection request that `socks5_handshake_and_request` writes, and the part of `handle_client`
that reads it.  The client encodes every host as a domain name, with its length in one byte.

The main result is `parses_connectRequest_iff`: the server reads the host and the port of the client
exactly if the host has at most 255 bytes.
-/

namespace AsioStudy

namespace Socks

open StreamReader

/-- What the functions throw. -/
inductive Exception where
  /-- A `std::runtime_error` with its text. -/
  | runtimeError (what : String)
  /-- The `system_error` of a read that reaches the end of the stream. -/
  | eof
  /-- The `system_error` of a call on a socket whose connection has failed. -/
  | failed
  deriving DecidableEq, Repr

/-- A program that reads from `client_socket` with `boost::asio::read`. -/
abbrev SocketReader := Reader UInt8 Exception

/-- `boost::asio::read` into an array or a vector of `n` bytes. -/
def read (n : ℕ) : SocketReader (Vector UInt8 n) := readVector .eof n

/-! ## The client -/

/-- The vector `connect_request`. -/
def connectRequest (destHost : Bytes) (destPort : UInt16) : Bytes :=
  [0x05, 0x01, 0x00, 0x03, UInt8.ofNat destHost.length] ++ destHost ++
    [((destPort >>> 8) &&& 0xFF).toUInt8] ++ [(destPort &&& 0xFF).toUInt8]

/-! ## The server -/

/-- What `handle_client` takes from a request. -/
structure TargetRequest where
  targetAddress : Bytes
  domainName : Bytes
  relativeUrl : Bytes
  targetPort : UInt16
  deriving DecidableEq, Repr

/-- `address_v4::to_string`: the four numbers in decimal with dots between them. -/
def ipv4ToString (address : Vector UInt8 4) : Bytes :=
  [ch '.'].intercalate (address.toList.map fun b => decimal b.toNat)

/-- The case of an IPv4 address. -/
def readIpv4 : SocketReader (Bytes × Bytes × Bytes) := do
  let ipv4Address ← read 4
  pure (ipv4ToString ipv4Address, [], [])

/-- The split of `target_address` into `domain_name` and `relative_url`. -/
def splitUrl (targetAddress : Bytes) : Bytes × Bytes :=
  match targetAddress.findIdx? (· == ch '/') with
  | some pos => (targetAddress.take pos, targetAddress.drop pos)
  | none => (targetAddress, [ch '/'])

/-- The case of a domain name. -/
def readDomainName : SocketReader (Bytes × Bytes × Bytes) := do
  let urlLength ← read 1
  let url ← read urlLength[0].toNat
  pure (url.toList, splitUrl url.toList)

/-- The case of an IPv6 address; `ipv6ToString` stands for `address_v6::to_string`. -/
def readIpv6 (ipv6ToString : Vector UInt8 16 → Bytes) :
    SocketReader (Bytes × Bytes × Bytes) := do
  let ipv6Address ← read 16
  pure (ipv6ToString ipv6Address, [], [])

/-- The `switch` over the address type: `target_address`, `domain_name` and `relative_url`. -/
def readAddress (ipv6ToString : Vector UInt8 16 → Bytes) (addressType : UInt8) :
    SocketReader (Bytes × Bytes × Bytes) :=
  if addressType = 0x01 then readIpv4
  else if addressType = 0x03 then readDomainName
  else if addressType = 0x04 then readIpv6 ipv6ToString
  else throw (.runtimeError "Invalid address type")

/-- `target_port`, from the two bytes of `port_data`. -/
def targetPort (portData : Vector UInt8 2) : UInt16 :=
  ((portData[0].toUInt16 <<< 8) &&& (0xFF00 : UInt16)) ||| portData[1].toUInt16

/-- The end of the request, after its address. -/
def readPort (address : Bytes × Bytes × Bytes) : SocketReader TargetRequest := do
  let portData ← read 2
  pure ⟨address.1, address.2.1, address.2.2, targetPort portData⟩

/-- The check of `request_header`, and what is read after it. -/
def readTarget (ipv6ToString : Vector UInt8 16 → Bytes) (requestHeader : Vector UInt8 4) :
    SocketReader TargetRequest :=
  if requestHeader[0] ≠ 0x05 ∨ requestHeader[1] ≠ 0x01 then
    throw (.runtimeError "[socks5_server] Invalid SOCKS5 request")
  else do
    let address ← readAddress ipv6ToString requestHeader[3]
    readPort address

/-- The part of `handle_client` from `request_header` to `port_data`. -/
def readRequest (ipv6ToString : Vector UInt8 16 → Bytes) : SocketReader TargetRequest := do
  let requestHeader ← read 4
  readTarget ipv6ToString requestHeader

/-! ## Reading what the client has written -/

/-- The port that is put together is the one that was taken apart. -/
lemma targetPort_bytes (port : UInt16) :
    targetPort #v[((port >>> 8) &&& 0xFF).toUInt8, (port &&& 0xFF).toUInt8] = port := by
  have hbits : ∀ b : BitVec 16, ((((b >>> 8) &&& 0xFF#16).setWidth 8).setWidth 16 <<< 8 &&&
      0xFF00#16) ||| ((b &&& 0xFF#16).setWidth 8).setWidth 16 = b := by
    intro b
    apply BitVec.eq_of_getLsbD_eq
    intro i hi
    interval_cases i <;> simp
  apply UInt16.toBitVec_inj.mp
  exact hbits port.toBitVec

/-- The server reads as many bytes of a domain name as the length before it says. -/
lemma consumes_readDomainName {n : UInt8} {url : Bytes} (h : url.length = n.toNat) :
    Consumes readDomainName (n :: url) (url, splitUrl url) := by
  have hurl := consumes_readVector Exception.eof (⟨url.toArray, h⟩ : Vector UInt8 n.toNat)
  have hbody : Consumes
      (read n.toNat >>= fun url => pure (url.toList, splitUrl url.toList)) (url ++ [])
      (url, splitUrl url) := hurl.bind (consumes_pure (url, splitUrl url))
  rw [List.append_nil] at hbody
  exact (consumes_readVector Exception.eof #v[n]).bind hbody

/-- The server reads a request whose domain name has the length that the request says. -/
lemma consumes_readRequest (ipv6ToString : Vector UInt8 16 → Bytes) {n : UInt8} {url : Bytes}
    (h : url.length = n.toNat) (high low : UInt8) :
    Consumes (readRequest ipv6ToString) ([0x05, 0x01, 0x00, 0x03, n] ++ url ++ [high] ++ [low])
      ⟨url, (splitUrl url).1, (splitUrl url).2, targetPort #v[high, low]⟩ := by
  have hport : Consumes (readPort (url, splitUrl url)) ([high, low] ++ [])
      ⟨url, (splitUrl url).1, (splitUrl url).2, targetPort #v[high, low]⟩ :=
    (consumes_readVector Exception.eof #v[high, low]).bind (consumes_pure _)
  have htarget : Consumes (readTarget ipv6ToString #v[0x05, 0x01, 0x00, 0x03])
      ((n :: url) ++ ([high, low] ++ []))
      ⟨url, (splitUrl url).1, (splitUrl url).2, targetPort #v[high, low]⟩ :=
    (consumes_readDomainName h).bind hport
  have hrequest := (consumes_readVector Exception.eof #v[0x05, 0x01, 0x00, 0x03]).bind htarget
  have hinput : [0x05, 0x01, 0x00, 0x03, n] ++ url ++ [high] ++ [low] =
      #v[0x05, 0x01, 0x00, 0x03].toList ++ ((n :: url) ++ ([high, low] ++ [])) := by
    simp
  rw [hinput]
  exact hrequest

/-- The server, from `request_header` to `port_data`, reads the host and the port of the client and
nothing of what follows. -/
def Parses (ipv6ToString : Vector UInt8 16 → Bytes) (destHost : Bytes) (destPort : UInt16)
    (rest : Bytes) : Prop :=
  ∃ r, readRequest ipv6ToString (connectRequest destHost destPort ++ rest) = .ok (r, rest) ∧
    r.targetAddress = destHost ∧ r.targetPort = destPort

/-- **Requests of the client.**  Whatever follows the request, the server reads from it the host and
the port of the client exactly if the host has at most 255 bytes. -/
theorem parses_connectRequest_iff (ipv6ToString : Vector UInt8 16 → Bytes) (destHost : Bytes)
    (destPort : UInt16) (rest : Bytes) :
    Parses ipv6ToString destHost destPort rest ↔ destHost.length ≤ 255 := by
  have hsize : (UInt8.ofNat destHost.length).toNat = destHost.length % 256 :=
    UInt8.toNat_ofNat'
  constructor
  · rintro ⟨r, hrun, hhost, -⟩
    by_contra hlong
    -- the server takes a first part of the host for the whole host
    have hlength : (destHost.take (destHost.length % 256)).length = destHost.length % 256 := by
      rw [List.length_take]
      omega
    have hrest : 2 ≤ (destHost.drop (destHost.length % 256)).length := by
      rw [List.length_drop]
      omega
    rcases hdrop : destHost.drop (destHost.length % 256) with _ | ⟨high, _ | ⟨low, tail⟩⟩
    · rw [hdrop] at hrest
      cases hrest
    · rw [hdrop] at hrest
      exact absurd hrest (by simp)
    · have hconsumes := consumes_readRequest ipv6ToString (hlength.trans hsize.symm) high low
      have hinput : connectRequest destHost destPort ++ rest =
          ([0x05, 0x01, 0x00, 0x03, UInt8.ofNat destHost.length] ++
              destHost.take (destHost.length % 256) ++ [high] ++ [low]) ++
            (tail ++ ([((destPort >>> 8) &&& 0xFF).toUInt8] ++ [(destPort &&& 0xFF).toUInt8] ++
              rest)) := by
        have hsplit := List.take_append_drop (destHost.length % 256) destHost
        rw [hdrop] at hsplit
        unfold connectRequest
        nth_rewrite 2 [← hsplit]
        simp only [List.append_assoc, List.cons_append, List.nil_append]
      rw [hinput] at hrun
      have hvalue := (hconsumes.unique hrun).1
      rw [hvalue] at hhost
      have hsame := congrArg List.length hhost
      rw [hlength] at hsame
      omega
  · intro hshort
    have hconsumes := consumes_readRequest ipv6ToString
      (hsize.trans (Nat.mod_eq_of_lt (by omega))).symm ((destPort >>> 8) &&& 0xFF).toUInt8
      (destPort &&& 0xFF).toUInt8
    exact ⟨_, hconsumes rest, rfl, targetPort_bytes destPort⟩

/-- The length of a host of 256 bytes is written as 0: the server reads an empty host, the first two
bytes of the host as the port, and leaves the rest of the request to be relayed. -/
theorem not_parses_connectRequest_256 :
    ¬ Parses (fun _ => []) (List.replicate 256 (ch 'a')) 80 [] := by
  rintro ⟨r, hrun, -⟩
  have hread : readRequest (fun _ => []) (connectRequest (List.replicate 256 (ch 'a')) 80 ++ []) =
      .ok (⟨[], [], [ch '/'], 0x6161⟩, List.replicate 254 (ch 'a') ++ [0, 80]) := by
    decide +kernel
  rw [hread] at hrun
  cases hrun

end Socks

end AsioStudy
