import AsioStudy.Foundation.Dialogue
import AsioStudy.Socks.SuccessReply

/-!
# The conversation of the client and the server

`socks5_client` and `socks5_server` talk over one connection: a greeting and its answer, a request
and its reply.  Both programs are synchronous.  Here they run at the same time, and what one of them
writes arrives at the other one some time later and in pieces.

The main result is `conversation`: every run ends, in one and the same way.  The client believes
that it is connected exactly if the server is, and the server is connected to the host of the client
exactly if the host has at most 255 bytes.
-/

namespace AsioStudy

namespace Socks

open Dialogue (Party State Reaches pair)
open Socks4 (Endpoint)

/-- How the two programs end, as far as the conversation goes. -/
inductive Result where
  /-- `socks5_handshake_and_request` returns. -/
  | ready
  /-- `socks5_handshake_and_request` throws. -/
  | refused
  /-- `handle_client` is connected to the target, and starts the relay. -/
  | relays (request : TargetRequest) (remote : Endpoint)
  /-- `handle_client` ends with an exception. -/
  | aborted (e : Abort)
  deriving DecidableEq

/-! ## The client -/

/-- The end of `socks5_handshake_and_request`: the reply to the request. -/
def clientReply : Party UInt8 Result :=
  .read 10
    (fun connectResponse => .stop (if connectResponse.getD 1 0 ≠ 0x00 then .refused else .ready))
    (.stop .refused)

/-- `socks5_handshake_and_request` after the greeting was sent. -/
def clientRequest (destHost : Bytes) (destPort : UInt16) : Party UInt8 Result :=
  .read 2
    (fun response =>
      if response.getD 1 0 ≠ 0x00 then .stop .refused
      else .write (connectRequest destHost destPort) clientReply)
    (.stop .refused)

/-- `socks5_handshake_and_request`. -/
def client (destHost : Bytes) (destPort : UInt16) : Party UInt8 Result :=
  .write [0x05, 0x01, 0x00] (clientRequest destHost destPort)

/-! ## The server -/

/-- What `handle_client` does when a read reaches the end of the stream. -/
def serverEof : Party UInt8 Result := .stop (.aborted (.thrown .eof))

/-- `handle_client` from the connection to the target on. -/
def serverConnect (net : Network) (request : TargetRequest) : Party UInt8 Result :=
  match connectTarget net request with
  | .error e => .stop (.aborted (.thrown e))
  | .ok remote =>
    match successReply remote with
    | .error e => .stop (.aborted e)
    | .ok reply => .write reply (.stop (.relays request remote))

/-- `handle_client` from `port_data` on. -/
def serverPort (net : Network) (address : Bytes × Bytes × Bytes) : Party UInt8 Result :=
  .read 2
    (fun portData =>
      serverConnect net ⟨address.1, address.2.1, address.2.2,
        targetPort #v[portData.getD 0 0, portData.getD 1 0]⟩)
    serverEof

/-- The `switch` over the address type, and what follows. -/
def serverAddress (net : Network) (ipv6ToString : Vector UInt8 16 → Bytes) (addressType : UInt8) :
    Party UInt8 Result :=
  if addressType = 0x01 then
    .read 4
      (fun address => serverPort net
        ([ch '.'].intercalate (address.map fun b => decimal b.toNat), [], [])) serverEof
  else if addressType = 0x03 then
    .read 1
      (fun urlLength =>
        .read (urlLength.getD 0 0).toNat (fun url => serverPort net (url, splitUrl url)) serverEof)
      serverEof
  else if addressType = 0x04 then
    .read 16
      (fun address => serverPort net
        (ipv6ToString (Vector.ofFn fun k => address.getD k 0), [], [])) serverEof
  else .stop (.aborted (.thrown (.runtimeError "Invalid address type")))

/-- `handle_client` from `request_header` on. -/
def serverRequest (net : Network) (ipv6ToString : Vector UInt8 16 → Bytes) : Party UInt8 Result :=
  .read 4
    (fun requestHeader =>
      if requestHeader.getD 0 0 ≠ 0x05 ∨ requestHeader.getD 1 0 ≠ 0x01 then
        .stop (.aborted (.thrown (.runtimeError "[socks5_server] Invalid SOCKS5 request")))
      else serverAddress net ipv6ToString (requestHeader.getD 3 0))
    serverEof

/-- `handle_client` up to the relay. -/
def server (net : Network) (ipv6ToString : Vector UInt8 16 → Bytes) : Party UInt8 Result :=
  .read 3
    (fun handshake =>
      if handshake.getD 0 0 ≠ 0x05 then
        .stop (.aborted (.thrown (.runtimeError "[socks5_server] Invalid SOCKS5 version")))
      else .write [0x05, 0x00] (serverRequest net ipv6ToString))
    serverEof

/-! ## The server on its own -/

/-- What `handleClient` returns, in the form in which a party returns it. -/
def Session.ofFeed (r : Bytes × Result × Bytes) : Option Session :=
  match r with
  | (written, .relays _ _, rest) => some ⟨written, .ok rest⟩
  | (written, .aborted e, _) => some ⟨written, .error e⟩
  | _ => none

/-- What `read` returns when the stream is long enough. -/
lemma exists_read_eq {n : ℕ} {stream : Bytes} (h : n ≤ stream.length) :
    ∃ v : Vector UInt8 n, v.toList = stream.take n ∧
      (∀ (k : ℕ) (hk : k < n), (stream.take n).getD k 0 = v[k]) ∧
      read n stream = .ok (v, stream.drop n) := by
  refine ⟨⟨(stream.take n).toArray, by simpa using h⟩, rfl, fun k hk => ?_, ?_⟩
  · have hlength : k < (stream.take n).length := by
      rw [List.length_take]
      omega
    rw [List.getD_eq_getElem _ _ hlength]
    rfl
  · rw [read, StreamReader.readVector, dif_pos h]

/-- A stream that is too short. -/
lemma read_eq_eof {n : ℕ} {stream : Bytes} (h : ¬ n ≤ stream.length) :
    read n stream = .error .eof := by
  rw [read, StreamReader.readVector, dif_neg h]

/-- A program that reads and goes on. -/
lemma bind_eq {β γ : Type} (p : SocketReader β) (f : β → SocketReader γ) (stream : Bytes) :
    (p >>= f) stream = match p stream with
      | .error e => .error e
      | .ok (a, rest) => f a rest := by
  rcases h : p stream with e | ⟨a, rest⟩
  · rw [show (p >>= f) stream = (p stream >>= fun r => f r.1 r.2) from rfl, h]
    rfl
  · rw [show (p >>= f) stream = (p stream >>= fun r => f r.1 r.2) from rfl, h]
    rfl

/-- `handleClient` from the connection to the target on. -/
def connectSession (net : Network) (request : TargetRequest) (rest : Bytes) : Session :=
  match connectTarget net request with
  | .error e => ⟨[], .error (.thrown e)⟩
  | .ok remote =>
    match successReply remote with
    | .error e => ⟨[], .error e⟩
    | .ok reply => ⟨reply, .ok rest⟩

/-- `handleClient` after a part of the request was read, or an exception of this part. -/
def afterRequest (net : Network) : Except Exception (TargetRequest × Bytes) → Session
  | .error e => ⟨[], .error (.thrown e)⟩
  | .ok (request, rest) => connectSession net request rest

/-- From the connection to the target on, the server is that of `handleClient`. -/
lemma feed_serverConnect (net : Network) (request : TargetRequest) (stream : Bytes) :
    Session.ofFeed ((serverConnect net request).feed stream) =
      some (connectSession net request stream) := by
  unfold serverConnect connectSession
  rcases connectTarget net request with e | remote
  · rfl
  · simp only
    rcases successReply remote with e | reply
    · rfl
    · simp [Party.feed, Session.ofFeed]

/-- From the port on, the server is that of `handleClient`. -/
lemma feed_serverPort (net : Network) (address : Bytes × Bytes × Bytes) (stream : Bytes) :
    Session.ofFeed ((serverPort net address).feed stream) =
      some (afterRequest net (readPort address stream)) := by
  unfold serverPort readPort
  rw [bind_eq, Party.feed]
  split_ifs with hle
  · obtain ⟨v, -, hget, hread⟩ := exists_read_eq hle
    rw [hread, feed_serverConnect, hget 0 (by decide), hget 1 (by decide)]
    have hv : (#v[v[0], v[1]] : Vector UInt8 2) = v := by
      ext k hk
      interval_cases k <;> rfl
    rw [hv]
    rfl
  · rw [read_eq_eof hle]
    rfl

/-- From the address on, the server is that of `handleClient`. -/
lemma feed_serverAddress (net : Network) (ipv6ToString : Vector UInt8 16 → Bytes)
    (addressType : UInt8) (stream : Bytes) :
    Session.ofFeed ((serverAddress net ipv6ToString addressType).feed stream) =
      some (afterRequest net
        ((readAddress ipv6ToString addressType >>= fun address => readPort address) stream)) := by
  unfold serverAddress readAddress
  rw [bind_eq]
  split_ifs with h₁ h₃ h₄
  · rw [Party.feed, readIpv4, bind_eq]
    split_ifs with hle
    · obtain ⟨v, hv, -, hread⟩ := exists_read_eq hle
      rw [hread, feed_serverPort, ← hv]
      rfl
    · rw [read_eq_eof hle]
      rfl
  · rw [Party.feed, readDomainName, bind_eq]
    split_ifs with hle
    · obtain ⟨v, -, hget, hread⟩ := exists_read_eq hle
      rw [hread, Party.feed, hget 0 (by decide)]
      simp only [bind_eq]
      split_ifs with hle'
      · obtain ⟨url, hurl, -, hread'⟩ := exists_read_eq hle'
        rw [hread', feed_serverPort, ← hurl]
        rfl
      · rw [read_eq_eof hle']
        rfl
    · rw [read_eq_eof hle]
      rfl
  · rw [Party.feed, readIpv6, bind_eq]
    split_ifs with hle
    · obtain ⟨v, -, hget, hread⟩ := exists_read_eq hle
      have hv : (Vector.ofFn fun k : Fin 16 => (stream.take 16).getD k 0) = v := by
        ext k hk
        rw [Vector.getElem_ofFn]
        exact congrArg _ (hget k hk)
      rw [hread, feed_serverPort, hv]
      rfl
    · rw [read_eq_eof hle]
      rfl
  · rfl

/-- What a session is when something was written before it. -/
def Session.after (written : Bytes) (s : Session) : Session :=
  { s with written := written ++ s.written }

/-- A party that writes first. -/
lemma ofFeed_write (items : Bytes) (next : Party UInt8 Result) (stream : Bytes) :
    Session.ofFeed ((Party.write items next).feed stream) =
      (Session.ofFeed (next.feed stream)).map (Session.after items) := by
  rw [Party.feed]
  rcases next.feed stream with ⟨written, _ | _ | _ | _, rest⟩
  · rfl
  · rfl
  · rfl
  · rfl

/-- From the request on, the server is that of `handleClient`. -/
lemma feed_serverRequest (net : Network) (ipv6ToString : Vector UInt8 16 → Bytes)
    (stream : Bytes) :
    Session.ofFeed ((serverRequest net ipv6ToString).feed stream) =
      some (afterRequest net (readRequest ipv6ToString stream)) := by
  unfold serverRequest readRequest
  rw [bind_eq, Party.feed]
  by_cases hle : 4 ≤ stream.length
  · obtain ⟨v, -, hget, hread⟩ := exists_read_eq hle
    rw [if_pos hle, hread, hget 0 (by decide), hget 1 (by decide), hget 3 (by decide)]
    unfold readTarget
    simp only
    split_ifs with hheader
    · rfl
    · rw [feed_serverAddress]
  · rw [if_neg hle, read_eq_eof hle]
    rfl

/-- `handleClient` after a handshake that it accepts. -/
lemma handleClient_of_readHandshake (net : Network) (ipv6ToString : Vector UInt8 16 → Bytes)
    {stream response rest : Bytes} (h : readHandshake stream = .ok (response, rest)) :
    handleClient net ipv6ToString stream =
      (afterRequest net (readRequest ipv6ToString rest)).after response := by
  rw [handleClient, h]
  rcases hrequest : readRequest ipv6ToString rest with e | ⟨request, rest'⟩
  · simp only [hrequest, afterRequest, Session.after, List.append_nil]
  · rcases hconnect : connectTarget net request with e | remote
    · simp only [hrequest, hconnect, afterRequest, connectSession, Session.after, List.append_nil]
    · rcases hreply : successReply remote with e | reply
      · simp only [hrequest, hconnect, hreply, afterRequest, connectSession, Session.after,
          List.append_nil]
      · simp only [hrequest, hconnect, hreply, afterRequest, connectSession, Session.after]

/-- `handleClient` after a handshake that it rejects. -/
lemma handleClient_of_readHandshake_error (net : Network)
    (ipv6ToString : Vector UInt8 16 → Bytes) {stream : Bytes} {e : Exception}
    (h : readHandshake stream = .error e) :
    handleClient net ipv6ToString stream = ⟨[], .error (.thrown e)⟩ := by
  unfold handleClient
  rw [h]

/-- **The server as one party.**  On a stream that ends, the server writes, leaves and ends as
`handleClient` does. -/
theorem feed_server (net : Network) (ipv6ToString : Vector UInt8 16 → Bytes) (stream : Bytes) :
    Session.ofFeed ((server net ipv6ToString).feed stream) =
      some (handleClient net ipv6ToString stream) := by
  unfold server
  rw [Party.feed]
  have hhandshake : readHandshake stream = _ := bind_eq (read 3) _ stream
  by_cases hle : 3 ≤ stream.length
  · obtain ⟨v, -, hget, hread⟩ := exists_read_eq hle
    simp only [hread] at hhandshake
    rw [if_pos hle, hget 0 (by decide)]
    by_cases hversion : v[0] ≠ 0x05
    · rw [if_pos hversion] at hhandshake ⊢
      rw [handleClient_of_readHandshake_error net ipv6ToString hhandshake]
      rfl
    · rw [if_neg hversion] at hhandshake ⊢
      rw [handleClient_of_readHandshake net ipv6ToString hhandshake, ofFeed_write,
        feed_serverRequest, Option.map_some]
  · simp only [read_eq_eof hle] at hhandshake
    rw [if_neg hle, handleClient_of_readHandshake_error net ipv6ToString hhandshake]
    rfl

/-! ## The conversation -/

/-- Both programs at the beginning. -/
def start (net : Network) (ipv6ToString : Vector UInt8 16 → Bytes) (destHost : Bytes)
    (destPort : UInt16) : State UInt8 Result :=
  .quiet (pair (client destHost destPort) (server net ipv6ToString)) (pair [] [])

/-- How the conversation ends when the server has understood the request of the client as
`request`. -/
def outcome (net : Network) (request : TargetRequest) : Result × Result :=
  match connectTarget net request with
  | .error e => (.refused, .aborted (.thrown e))
  | .ok remote =>
    match successReply remote with
    | .error e => (.refused, .aborted e)
    | .ok _ => (.ready, .relays request remote)

/-- Every request of the client is a request for some host, perhaps with something behind it: the
host of the client if it has at most 255 bytes, and otherwise a shorter one. -/
lemma connectRequest_eq (destHost : Bytes) (destPort : UInt16) :
    ∃ n url high low rest, connectRequest destHost destPort =
        [0x05, 0x01, 0x00, 0x03] ++ ([n] ++ (url ++ ([high, low] ++ rest))) ∧
      url.length = UInt8.toNat n ∧
      ((destHost.length ≤ 255 ∧ url = destHost ∧ targetPort #v[high, low] = destPort ∧
          rest = []) ∨ (¬ destHost.length ≤ 255 ∧ url ≠ destHost)) := by
  have hsize : (UInt8.ofNat destHost.length).toNat = destHost.length % 256 := UInt8.toNat_ofNat'
  by_cases hle : destHost.length ≤ 255
  · refine ⟨UInt8.ofNat destHost.length, destHost, ((destPort >>> 8) &&& 0xFF).toUInt8,
      (destPort &&& 0xFF).toUInt8, [], ?_, ?_, Or.inl ⟨hle, rfl, targetPort_bytes destPort, rfl⟩⟩
    · simp [connectRequest]
    · rw [hsize, Nat.mod_eq_of_lt (by omega)]
  · -- the length is that of a first part of the host, which is followed by at least two bytes
    have hlength : (destHost.take (destHost.length % 256)).length = destHost.length % 256 := by
      rw [List.length_take]
      omega
    have hrest : 2 ≤ (destHost.drop (destHost.length % 256)).length := by
      rw [List.length_drop]
      omega
    rcases hdrop : destHost.drop (destHost.length % 256) with _ | ⟨high, _ | ⟨low, tail⟩⟩
    · rw [hdrop] at hrest
      cases hrest
    · rw [hdrop] at hrest
      exact absurd hrest (by simp)
    · refine ⟨UInt8.ofNat destHost.length, destHost.take (destHost.length % 256), high, low,
        tail ++ [((destPort >>> 8) &&& 0xFF).toUInt8, (destPort &&& 0xFF).toUInt8], ?_,
        hlength.trans hsize.symm, Or.inr ⟨hle, fun heq => ?_⟩⟩
      · have hsplit := List.take_append_drop (destHost.length % 256) destHost
        rw [hdrop] at hsplit
        unfold connectRequest
        nth_rewrite 2 [← hsplit]
        simp
      · rw [heq] at hlength
        omega

/-- The greeting and its answer. -/
lemma reaches_greeting (net : Network) (ipv6ToString : Vector UInt8 16 → Bytes) (destHost : Bytes)
    (destPort : UInt16) :
    Reaches (start net ipv6ToString destHost destPort)
      (.quiet (pair clientReply (serverRequest net ipv6ToString))
        (pair (connectRequest destHost destPort) [])) := by
  have hgreeting := Dialogue.reaches_write_left [0x05, 0x01, 0x00]
    (clientRequest destHost destPort) (server net ipv6ToString) [] []
  have hhandshake : Reaches
      (.quiet (pair (clientRequest destHost destPort) (server net ipv6ToString))
        (pair ([0x05, 0x01, 0x00] ++ []) []))
      (.quiet (pair (clientRequest destHost destPort)
        (.write [0x05, 0x00] (serverRequest net ipv6ToString))) (pair [] [])) :=
    Dialogue.reaches_read_right _ _ _ [] [] rfl
  have hresponse := Dialogue.reaches_write_right [0x05, 0x00] (clientRequest destHost destPort)
    (serverRequest net ipv6ToString) [] []
  have hread : Reaches
      (.quiet (pair (clientRequest destHost destPort) (serverRequest net ipv6ToString))
        (pair [] ([0x05, 0x00] ++ [])))
      (.quiet (pair (.write (connectRequest destHost destPort) clientReply)
        (serverRequest net ipv6ToString)) (pair [] [])) :=
    Dialogue.reaches_read_left _ _ _ [] [] rfl
  have hrequest := Dialogue.reaches_write_left (connectRequest destHost destPort) clientReply
    (serverRequest net ipv6ToString) [] []
  exact hgreeting.trans (hhandshake.trans (hresponse.trans (hread.trans hrequest)))

/-- The request, as the server reads it. -/
lemma reaches_request (net : Network) (ipv6ToString : Vector UInt8 16 → Bytes)
    (left : Party UInt8 Result) {n : UInt8} {url : Bytes} (h : url.length = n.toNat)
    (high low : UInt8) (rest : Bytes) :
    Reaches
      (.quiet (pair left (serverRequest net ipv6ToString))
        (pair ([0x05, 0x01, 0x00, 0x03] ++ ([n] ++ (url ++ ([high, low] ++ rest)))) []))
      (.quiet (pair left (serverConnect net
        ⟨url, (splitUrl url).1, (splitUrl url).2, targetPort #v[high, low]⟩)) (pair rest [])) := by
  have hheader : Reaches
      (.quiet (pair left (serverRequest net ipv6ToString))
        (pair ([0x05, 0x01, 0x00, 0x03] ++ ([n] ++ (url ++ ([high, low] ++ rest)))) []))
      (.quiet (pair left (serverAddress net ipv6ToString 0x03))
        (pair ([n] ++ (url ++ ([high, low] ++ rest))) [])) :=
    Dialogue.reaches_read_right _ _ _ _ [] rfl
  have hlength : Reaches
      (.quiet (pair left (serverAddress net ipv6ToString 0x03))
        (pair ([n] ++ (url ++ ([high, low] ++ rest))) []))
      (.quiet (pair left (.read n.toNat
        (fun url => serverPort net (url, splitUrl url)) serverEof))
        (pair (url ++ ([high, low] ++ rest)) [])) :=
    Dialogue.reaches_read_right _ _ _ _ [] rfl
  have hurl : Reaches
      (.quiet (pair left (.read n.toNat
        (fun url => serverPort net (url, splitUrl url)) serverEof))
        (pair (url ++ ([high, low] ++ rest)) []))
      (.quiet (pair left (serverPort net (url, splitUrl url))) (pair ([high, low] ++ rest) [])) :=
    Dialogue.reaches_read_right _ _ _ _ [] h
  have hport : Reaches
      (.quiet (pair left (serverPort net (url, splitUrl url))) (pair ([high, low] ++ rest) []))
      (.quiet (pair left (serverConnect net
        ⟨url, (splitUrl url).1, (splitUrl url).2, targetPort #v[high, low]⟩)) (pair rest [])) :=
    Dialogue.reaches_read_right _ _ _ _ [] rfl
  exact hheader.trans (hlength.trans (hurl.trans hport))

/-- A reply of the server has ten bytes, the second of which says that it is a success. -/
lemma successReply_spec {remote : Endpoint} {reply : Bytes} (h : successReply remote = .ok reply) :
    reply.length = 10 ∧ reply.getD 1 0 = 0x00 := by
  rcases remote with ⟨address, port⟩ | ⟨address, port⟩
  · obtain ⟨a, b, c, d, rfl⟩ := exists_bytes_eq address
    rw [successReply_v4] at h
    obtain rfl := Except.ok.inj h
    exact ⟨rfl, rfl⟩
  · cases h

/-- The reply, or the end of the stream. -/
lemma reaches_reply (net : Network) (request : TargetRequest) (rest : Bytes) :
    Reaches (.quiet (pair clientReply (serverConnect net request)) (pair rest []))
      (.quiet (fun d => .stop (pair (outcome net request).1 (outcome net request).2 d))
        (pair rest [])) := by
  have hpair : ∀ a b : Result,
      (fun d => Party.stop (pair a b d) : Dialogue.Side → Party UInt8 Result) =
        pair (.stop a) (.stop b) := by
    intro a b
    funext d
    cases d <;> rfl
  rw [hpair]
  unfold serverConnect outcome
  rcases connectTarget net request with e | remote
  · exact Dialogue.reaches_eof_left _ _ _ _ (by decide)
  · simp only
    rcases hreply : successReply remote with e | reply
    · exact Dialogue.reaches_eof_left _ _ _ _ (by decide)
    · obtain ⟨hlength, hsuccess⟩ := successReply_spec hreply
      have hwrite := Dialogue.reaches_write_right reply clientReply
        (.stop (.relays request remote)) rest []
      have hread : Reaches
          (.quiet (pair clientReply (.stop (.relays request remote))) (pair rest (reply ++ [])))
          (.quiet (pair (.stop (if reply.getD 1 0 ≠ 0x00 then .refused else .ready))
            (.stop (.relays request remote))) (pair rest [])) :=
        Dialogue.reaches_read_left _ _ _ rest [] hlength
      rw [List.append_nil, if_neg (by rw [hsuccess]; exact fun h => h rfl)] at hread
      exact hwrite.trans hread

/-- **The conversation.**  Whatever the host and the port, the library and the network are, however
the steps of the two programs and the arrival of their bytes are interleaved, every run can be
continued to one and the same end, and no run is longer than a fixed number of steps.  In the end
the client believes that it is connected if and only if the server is, for a request that has the
host and the port of the client, with nothing left over for the relay, if and only if the host has
at most 255 bytes. -/
theorem conversation (net : Network) (ipv6ToString : Vector UInt8 16 → Bytes) (destHost : Bytes)
    (destPort : UInt16) :
    ∃ request unread n,
      (∀ es t, Confluence.run Dialogue.step (start net ipv6ToString destHost destPort) es = some t →
        es.length ≤ n ∧
        Reaches t (.quiet
          (fun d => .stop (pair (outcome net request).1 (outcome net request).2 d))
          (pair unread []))) ∧
      ((outcome net request).1 = .ready ↔
        ∃ remote, (outcome net request).2 = .relays request remote ∧
          connectTarget net request = .ok remote) ∧
      (request.targetAddress = destHost ∧ request.targetPort = destPort ∧ unread = [] ↔
        destHost.length ≤ 255) := by
  obtain ⟨n, url, high, low, rest, hrequest, hurl, hhost⟩ := connectRequest_eq destHost destPort
  have hgreeting := reaches_greeting net ipv6ToString destHost destPort
  rw [hrequest] at hgreeting
  have hreaches := hgreeting.trans ((reaches_request net ipv6ToString clientReply hurl high low
    rest).trans (reaches_reply net _ rest))
  obtain ⟨m, hall⟩ := Dialogue.exists_rest_of_reaches hreaches
  refine ⟨_, rest, m, hall, ?_, ?_⟩
  · unfold outcome
    rcases hconnect : connectTarget net _ with e | remote
    · simp
    · simp only
      rcases successReply remote with e | reply
      · simp
      · simp
  · obtain ⟨hle, hsame, hport, hrest⟩ | ⟨hle, hother⟩ := hhost
    · exact ⟨fun _ => hle, fun _ => ⟨hsame, hport, hrest⟩⟩
    · exact ⟨fun h => absurd h.1 hother, fun h => absurd h hle⟩

end Socks

end AsioStudy
