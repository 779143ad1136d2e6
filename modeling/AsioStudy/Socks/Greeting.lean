import AsioStudy.Socks.Request

/-!
# The greeting

The first message of a client lists its authentication methods, and their number comes before them.
`handle_client` reads three bytes whatever the number is, and does not look at the methods.

`greets_iff`: the server reads a greeting, and answers what it allows, exactly if its only method is
the one without authentication.
-/

namespace AsioStudy

namespace Socks

open StreamReader

/-- The greeting of a client with the given methods. -/
def greeting (methods : Bytes) : Bytes := [0x05, UInt8.ofNat methods.length] ++ methods

/-- The first part of `handle_client`, up to `request_header`, which yields what it answers. -/
def readHandshake : SocketReader Bytes := do
  let handshake ← read 3
  if handshake[0] ≠ 0x05 then throw (.runtimeError "[socks5_server] Invalid SOCKS5 version")
  else pure [0x05, 0x00]

/-- The server reads the greeting and nothing of what follows, and it chooses no authentication only
if the client offers this. -/
def Greets (methods t : Bytes) : Prop :=
  ∃ response, readHandshake (greeting methods ++ t) = .ok (response, t) ∧
    (response = [0x05, 0x00] → 0x00 ∈ methods)

/-- The server reads three bytes and answers that no authentication is necessary. -/
lemma consumes_readHandshake (n m : UInt8) :
    Consumes readHandshake [0x05, n, m] [0x05, 0x00] :=
  (consumes_readVector Exception.eof #v[0x05, n, m]).bind (consumes_pure _)

/-- **The greeting.**  A greeting of 1 to 255 methods is read whole and answered as it should be if
and only if it offers the method 0 and nothing else. -/
theorem greets_iff {methods : Bytes} (hpos : 1 ≤ methods.length) (hle : methods.length ≤ 255)
    (t : Bytes) : Greets methods t ↔ methods = [0x00] := by
  obtain ⟨m, methods, rfl⟩ := List.exists_cons_of_length_pos hpos
  have hrun : readHandshake (greeting (m :: methods) ++ t) = .ok ([0x05, 0x00], methods ++ t) :=
    consumes_readHandshake _ m (methods ++ t)
  unfold Greets
  rw [hrun]
  constructor
  · rintro ⟨response, heq, hoffered⟩
    obtain ⟨hresponse, hrest⟩ := Prod.mk.inj (Except.ok.inj heq)
    -- nothing of the methods is left over
    obtain rfl : methods = [] := List.append_left_eq_self.mp hrest
    have hmem := hoffered hresponse.symm
    rw [List.mem_singleton] at hmem
    rw [hmem]
  · intro heq
    obtain ⟨rfl, rfl⟩ := List.cons.inj heq
    exact ⟨_, rfl, fun _ => List.mem_cons_self⟩

/-- The greeting of `socks5_handshake_and_request`. -/
theorem greets_iff_no_authentication : Greets [0x00] [0x05] :=
  (greets_iff (by decide) (by decide) [0x05]).mpr rfl

/-- Of a greeting with two methods, none of which is the method 0, the server leaves the second one
to be read as the request, and it answers that no authentication is necessary. -/
theorem not_greets_two_methods : ¬ Greets [0x01, 0x02] [] := by
  rintro ⟨response, heq, -⟩
  have hrun : readHandshake (greeting [0x01, 0x02] ++ []) = .ok ([0x05, 0x00], [0x02]) :=
    consumes_readHandshake 0x02 0x01 [0x02]
  rw [hrun] at heq
  cases heq

end Socks

end AsioStudy
