import StreamingHttp.Proofs.Location.WrittenUrl
import StreamingHttp.Proofs.Request.Sendable
import StreamingHttp.Proofs.Request.TargetReading

/-!
# From a URL to the head of a request and back

The request for a written URL is never refused.  Its head names the host, carries user
and password as credentials, and its target is a path with a query which is written
anew.  A reader of the target finds the path and the parameters of the URL again, in
their order.

A parameter with neither name nor value is left out of the target, so a written URL has
none.
-/

namespace StreamingHttp

open Header

namespace Request

open Location

section Written

variable (written : WrittenUrl)

/-- The path and the parameters of a written URL. -/
def targetOf (written : WrittenUrl) : String :=
  written.path ++ queryText written.params

/-- User and password of a written URL as credentials. -/
def credentialsOf (written : WrittenUrl) : String :=
  Base64.basicCredentials written.user written.password

theorem auth_ofLocation :
    (ofLocation written.location).auth = some (credentialsOf written) := by
  have huser : written.user.isEmpty = false := by
    simpa using written.user_ne_empty
  show credentials? written.location = _
  rw [credentials?, show written.location.user = written.user from rfl, huser]
  rfl

theorem isBlank_of_mem_credentialsOf :
    ∀ b ∈ Utf8.ofString (credentialsOf written), Byte.isBlank b = false := by
  intro b hb
  have hspace := Base64.isSpace_of_mem_encode b hb
  simp only [Byte.isSpace, Bool.or_eq_false_iff] at hspace
  exact hspace.1.1

theorem notMem_host_of_line {b : UInt8} (hb : b = Byte.cr ∨ b = Byte.lf) :
    b ∉ Utf8.ofString written.host := by
  intro hmem
  rcases hb with rfl | rfl
  · exact written.host_line.1 ((Utf8.mem_encode_iff (by decide)).mp hmem)
  · exact written.host_line.2 ((Utf8.mem_encode_iff (by decide)).mp hmem)

/-- The request for a written URL breaks no rule. -/
theorem fault?_ofLocation : (ofLocation written.location).fault? = none := by
  rw [fault?_eq_none_iff]
  refine ⟨?_, ?_, not_hasBadAuth_toHost _ _⟩
  · refine mt hasBadPath_toHost_iff.mp ?_
    rintro ⟨b, hb, hend⟩
    obtain ⟨hlow, hdelete⟩ := written.path_bytes b hb
    rcases hend with hcontrol | hend
    · exact UInt8.not_le.mpr hlow hcontrol
    · exact hdelete hend
  · rintro (hempty | ⟨b, hb, hend⟩)
    · exact written.host_ne_empty hempty
    · exact notMem_host_of_line written hend hb

/-- Nothing is trimmed off the host. -/
theorem trim_host :
    Bytes.trim Byte.isBlank (Utf8.ofString written.host) = Utf8.ofString written.host := by
  have hblank : ∀ b, Byte.isBlank b = true → b < 0x80 ∧
      ¬ (Char.ofNat b.toNat ≠ ' ' ∧ Char.ofNat b.toNat ≠ '\t') := by
    intro b hb
    simp only [Byte.isBlank, Bool.or_eq_true, beq_iff_eq] at hb
    rcases hb with rfl | rfl <;> decide
  apply Bytes.trim_eq_self
  · intro b hb
    by_contra hne
    obtain ⟨hlow, hchar⟩ := hblank b (by simpa using hne)
    exact hchar (written.host_head _ (Utf8.mem_head?_of_encode hlow hb))
  · intro b hb
    by_contra hne
    obtain ⟨hlow, hchar⟩ := hblank b (by simpa using hne)
    exact hchar (written.host_last _ (Utf8.mem_getLast?_of_encode hlow hb))

/-- Credentials hold a colon, so they are not empty. -/
theorem ofString_credentialsOf_ne_nil : Utf8.ofString (credentialsOf written) ≠ [] := by
  intro hnil
  have hempty : credentialsOf written = "" := Utf8.ofString_injective hnil
  have hread := Base64.decode?_basicCredentials written.user written.password
  have hnone : Base64.decode? "" = some [] := rfl
  rw [← credentialsOf, hempty, hnone, Option.some.injEq] at hread
  exact absurd hread.symm (List.append_ne_nil_of_right_ne_nil _ (List.cons_ne_nil _ _))

/-- Nothing is trimmed off the credentials. -/
theorem authHeader_credentialsOf :
    authHeader (credentialsOf written) =
      (Utf8.ofString "Authorization",
        Utf8.ofString ("Basic " ++ credentialsOf written)) := by
  rw [authHeader, Bytes.trimEnd_eq_self]
  intro b hb
  have hne := ofString_credentialsOf_ne_nil written
  rw [Utf8.ofString_append, List.getLast?_append, List.getLast?_eq_some_getLast hne,
    Option.some_or, Option.mem_some_iff] at hb
  exact isBlank_of_mem_credentialsOf written b (hb ▸ List.getLast_mem hne)

/-- A request for a written URL is read as host and credentials. -/
theorem headers_ofLocation :
    (ofLocation written.location).headers =
      [(Utf8.ofString "Host", Utf8.ofString written.host),
        (Utf8.ofString "Authorization",
          Utf8.ofString ("Basic " ++ credentialsOf written))] := by
  have hhost : (ofLocation written.location).host = written.host := rfl
  rw [headers, hhost, trim_host, auth_ofLocation, Option.map_some,
    authHeader_credentialsOf]
  rfl

/-- A written URL is read as its parts, and the request for it is accepted.  From the
head of the request, in any chunks, a parser reads the host, user and password in base64,
and a target in which a reader of URLs finds the path and the parameters in their
order. -/
theorem parse_then_appendHead_then_parse (buffer : Bytes) :
    Location.parse written.text = .ok written.location ∧
      ∃ head target credentials,
        (ofLocation written.location).appendHead buffer = (.ok (), buffer ++ head) ∧
        (∀ chunks : List Bytes, chunks.flatten = head →
          Block.ofParser (feedAll Parser.feed (.new true) chunks).1.flatten
              (feedAll Parser.feed (.new true) chunks).2 =
            { closed := true
              startLine := Utf8.ofString ("GET /" ++ target ++ " HTTP/1.1")
              fields := [(Utf8.ofString "Host", Utf8.ofString written.host),
                (Utf8.ofString "Authorization", Utf8.ofString ("Basic " ++ credentials))]
              faults := []
              rest := [] }) ∧
        Base64.decode? credentials =
          some (Utf8.ofString written.user ++
            Byte.colon :: Utf8.ofString written.password) ∧
        Location.parse ("http://h/" ++ target) =
          .ok { url := "http://h/" ++ target
                user := ""
                password := ""
                host := "h"
                port := 80
                path := written.path
                params := written.params
                fragment := "" } := by
  have hfault := fault?_ofLocation written
  refine ⟨written.parse_text, Utf8.ofString (ofLocation written.location).headText,
    targetOf written, credentialsOf written, ?_, ?_, ?_, ?_⟩
  · rw [appendHead, head, hfault]
  · intro chunks hchunks
    have hflatten : chunks.flatten =
        Utf8.ofString (ofLocation written.location).headText ++ [] := by
      simpa using hchunks
    rw [ofParser_feedAll_headText hfault hflatten, headers_ofLocation]
    rfl
  · exact Base64.decode?_basicCredentials written.user written.password
  · exact parse_target written.path_delimiters written.params_ne_empty

end Written

/-- A URL with an escaped user, a name which comes twice, an empty value, and a fragment
with delimiters. -/
def delimitersUrl : WrittenUrl where
  style := .plus
  user := "a:b@"
  password := "p +/"
  host := "h#?"
  port := 8080
  path := "/x:@y%20"
  params := [("k", "v w"), ("k", ""), ("", "é&=#")]
  fragment := "f#?"
  user_ne_empty := by decide
  host_ne_empty := by decide
  host_delimiters := by decide
  host_line := by decide
  host_head := by simp
  host_last := by simp
  path_delimiters := by decide
  path_bytes := by decide +kernel
  params_ne_empty := by decide

theorem parse_then_appendHead_then_parse_delimiters :
    ∃ head target credentials,
      (ofLocation delimitersUrl.location).appendHead [0x61] = (.ok (), [0x61] ++ head) ∧
      Block.ofParser (feedAll Parser.feed (.new true) [head.take 9, head.drop 9]).1.flatten
          (feedAll Parser.feed (.new true) [head.take 9, head.drop 9]).2 =
        { closed := true
          startLine := Utf8.ofString ("GET /" ++ target ++ " HTTP/1.1")
          fields := [(Utf8.ofString "Host", Utf8.ofString "h#?"),
            (Utf8.ofString "Authorization", Utf8.ofString ("Basic " ++ credentials))]
          faults := []
          rest := [] } ∧
      Base64.decode? credentials = some (Utf8.ofString "a:b@:p +/") ∧
      Location.parse ("http://h/" ++ target) =
        .ok { url := "http://h/" ++ target
              user := ""
              password := ""
              host := "h"
              port := 80
              path := "/x:@y%20"
              params := [("k", "v w"), ("k", ""), ("", "é&=#")]
              fragment := "" } := by
  obtain ⟨-, head, target, credentials, happend, hread, hdecode, hparse⟩ :=
    parse_then_appendHead_then_parse delimitersUrl [0x61]
  refine ⟨head, target, credentials, happend, ?_, hdecode, hparse⟩
  exact hread [head.take 9, head.drop 9] (by simp)

end Request

end StreamingHttp
