import Rps.Base.Base64
import Rps.Controller.HttpRewrite

/-! Accounts of the HTTP proxy port and the credentials a client sends.

An account is stored with any username and password that are not blank. A client sends them
as one text with a colon between them, in base64, and the port cuts that text at its first
colon. `stored_accounts_log_in`: an account is read as itself exactly if its username has no
colon, and no two such accounts have the same credentials. -/
namespace Rps.Controller.HttpProxy
open Base

/-! ### Accounts that can be stored -/

/-- `create_proxy_account` takes a credential that is not blank, or makes one up. -/
def createdCredential (given : Option String) (secret : String) : String :=
  (given.filter fun value => trim value.toList ≠ []).getD secret

/-- `random_proxy_secret`: the first twelve hexadecimal digits of a random id. -/
def IsSecret (secret : String) : Prop :=
  secret.toList.length = 12 ∧ ∀ c ∈ secret.toList, "0123456789abcdef".toList.contains c = true

/-- `update_proxy_account` takes the credentials without the white space around them. -/
def updatedCredentials (username password : String) : Except String (String × String) :=
  let username := trim username.toList
  let password := trim password.toList
  if username = [] ∨ password = [] then .error "username and password are required"
  else .ok (String.ofList username, String.ofList password)

/-- What the two handlers can store. -/
inductive Stored : String → String → Prop
  | create {username password : Option String} {secret₁ secret₂ : String} : IsSecret secret₁ → IsSecret secret₂ →
      Stored (createdCredential username secret₁) (createdCredential password secret₂)
  | update {given₁ given₂ username password : String} :
      updatedCredentials given₁ given₂ = .ok (username, password) → Stored username password

theorem IsSecret.trim_ne_nil {secret : String} (h : IsSecret secret) : trim secret.toList ≠ [] := by
  have hchar : ∀ c ∈ secret.toList, isWhitespace c = false := by
    have hall : "0123456789abcdef".toList.all (!isWhitespace ·) = true := by decide
    intro c hc
    simpa using List.all_eq_true.mp hall c (by simpa using h.2 c hc)
  rw [trim_eq_self (fun c hc => hchar c (List.mem_of_mem_head? hc)) (fun c hc => hchar c (List.mem_of_getLast? hc))]
  rw [← List.length_pos_iff, h.1]
  decide

theorem createdCredential_ne_nil (given : Option String) {secret : String} (h : IsSecret secret) :
    trim (createdCredential given secret).toList ≠ [] := by
  unfold createdCredential
  cases given with
  | none => exact h.trim_ne_nil
  | some value =>
    by_cases hblank : trim value.toList = []
    · rw [Option.filter_some_neg (by simpa using hblank)]
      exact h.trim_ne_nil
    · rw [Option.filter_some_pos (by simpa using hblank)]
      exact hblank

/-- Everything that is not blank can be stored, and nothing else. -/
theorem stored_iff (username password : String) :
    Stored username password ↔ trim username.toList ≠ [] ∧ trim password.toList ≠ [] := by
  constructor
  · intro h
    cases h with
    | create h₁ h₂ => exact ⟨createdCredential_ne_nil _ h₁, createdCredential_ne_nil _ h₂⟩
    | @update given₁ given₂ _ _ h =>
      simp only [updatedCredentials] at h
      split at h
      · cases h
      · rename_i hblank
        cases h
        have htrim : ∀ s : List Char, trim (trim s) = trim s := fun s =>
          trim_eq_self (trim_ends s).1 (trim_ends s).2
        simpa [htrim] using hblank
  · intro hboth
    obtain ⟨husername, hpassword⟩ := hboth
    have hsecret : IsSecret "000000000000" := ⟨by decide, List.all_eq_true.mp (by decide)⟩
    have hcreated : ∀ value : String, trim value.toList ≠ [] → createdCredential (some value) "000000000000" = value := by
      intro value hvalue
      rw [createdCredential, Option.filter_some_pos (by simpa using hvalue)]
      rfl
    have hstored : Stored _ _ := @Stored.create (some username) (some password) _ _ hsecret hsecret
    rwa [hcreated username husername, hcreated password hpassword] at hstored

/-- Credentials of an account that was stored. -/
structure StoredAccount where
  username : String
  password : String
  stored : Stored username password

/-- The text that a client encodes. -/
def StoredAccount.credential (a : StoredAccount) : List Char := a.username.toList ++ ':' :: a.password.toList

/-! ### What a client sends -/

/-- A header block in which the first `Proxy-Authorization` line is the one of the account. -/
structure AuthBlock (a : StoredAccount) where
  header : String
  before : List (List Char)
  name : List Char
  leading : List Char
  trailing : List Char
  after : List (List Char)
  lines_eq : lines [] header.toList =
    before ++ (name ++ ':' :: (leading ++ ("Basic ".toList ++ Base64.encode (encode a.credential)) ++ trailing)) :: after
  first : ∀ line ∈ before, ¬ Named proxyAuthorization line
  spelled : eqIgnoreAsciiCase name proxyAuthorization = true
  blank : ∀ c ∈ leading ++ trailing, c = ' ' ∨ c = '\t'

section
variable {env : AuthEnv} {a : StoredAccount}

/-- The first authorization is the one that is read. -/
theorem AuthBlock.parse_eq (block : AuthBlock a) :
    parseBasicProxyAuth env block.header =
      basicCredentials env (block.leading ++ ("Basic ".toList ++ Base64.encode (encode a.credential)) ++
        block.trailing) := by
  have hskip : ∀ line ∈ block.before, isProxyAuthorization line = false := by
    intro line hline
    rw [← Bool.not_eq_true, isProxyAuthorization_iff]
    exact block.first line hline
  have hcolon : ':' ∉ block.name := by
    intro hmem
    have hlower : ':'.toLower ∈ proxyAuthorization.map Char.toLower := by
      rw [← of_decide_eq_true block.spelled]
      exact List.mem_map_of_mem hmem
    exact absurd hlower (by decide)
  have hspelled : eqIgnoreAsciiCase block.name "Proxy-Authorization".toList = true := block.spelled
  rw [parseBasicProxyAuth, block.lines_eq, proxyAuthLine_skip env hskip, proxyAuthLine, splitOnce_append hcolon]
  simp only [hspelled, if_true]

theorem encode_ne_nil (a : StoredAccount) : Base64.encode (encode a.credential) ≠ [] := by
  have hbytes : encode a.credential ≠ [] := by simp [StoredAccount.credential]
  match hbytes : encode a.credential with
  | [] => contradiction
  | [_] | [_, _] | _ :: _ :: _ :: _ => simp [Base64.encode]

/-- What is sent is cut at its first colon. -/
theorem AuthBlock.basicCredentials_eq (hdecode : ∀ bytes, env.base64Decode (String.ofList (Base64.encode bytes)) = some bytes)
    (block : AuthBlock a) :
    parseBasicProxyAuth env block.header =
      (splitOnce ':' a.credential).map fun (username, password) => (String.ofList username, String.ofList password) := by
  have hvisible : ∀ c ∈ Base64.encode (encode a.credential), isWhitespace c = false := fun c hc =>
    isWhitespace_of_visible (by simpa [visible] using Base64.encode_visible _ c hc)
  have hblank : ∀ c ∈ block.leading ++ block.trailing, isWhitespace c = true := by
    intro c hc
    rcases block.blank c hc with rfl | rfl <;> decide
  have htrim : trim (block.leading ++ ("Basic ".toList ++ Base64.encode (encode a.credential)) ++ block.trailing) =
      "Basic ".toList ++ Base64.encode (encode a.credential) := by
    refine trim_blank hblank (by simp [isWhitespace]) fun c hc => ?_
    rw [List.getLast?_append_of_ne_nil _ (encode_ne_nil a)] at hc
    exact hvisible c (List.mem_of_getLast? hc)
  have hstrip := stripPrefix_append "Basic " (String.ofList (Base64.encode (encode a.credential)))
  have htext : String.ofList ("Basic ".toList ++ Base64.encode (encode a.credential)) =
      "Basic " ++ String.ofList (Base64.encode (encode a.credential)) := by
    rw [String.ofList_append, String.ofList_toList]
  have hutf8 : String.fromUTF8? ⟨(encode a.credential).toArray⟩ = some (String.ofList a.credential) := by
    rw [fromUTF8_eq_some, String.toList_ofList]
  rw [block.parse_eq, basicCredentials, htrim, htext, hstrip]
  simp only [Option.bind_eq_bind, Option.bind_some, hdecode, hutf8, String.toList_ofList]
  cases splitOnce ':' a.credential <;> rfl

theorem splitOnce_credential (a : StoredAccount) :
    splitOnce ':' a.credential = some (a.username.toList, a.password.toList) ↔ ':' ∉ a.username.toList := by
  rw [splitOnce_eq_some]
  exact ⟨fun h => h.2, fun h => ⟨rfl, h⟩⟩

/-- **An account logs in as itself** exactly if its username has no colon; and accounts whose
usernames have none are told apart by their credentials. -/
theorem stored_accounts_log_in (env : AuthEnv)
    (hdecode : ∀ bytes, env.base64Decode (String.ofList (Base64.encode bytes)) = some bytes)
    (a b : StoredAccount) (block : AuthBlock a) :
    (parseBasicProxyAuth env block.header = some (a.username, a.password) ↔ ':' ∉ a.username.toList) ∧
    (':' ∉ a.username.toList → ':' ∉ b.username.toList → a.credential = b.credential →
      a.username = b.username ∧ a.password = b.password) := by
  constructor
  · rw [block.basicCredentials_eq hdecode, ← splitOnce_credential a]
    constructor
    · intro h
      obtain ⟨⟨username, password⟩, hsplit, heq⟩ := Option.map_eq_some_iff.mp h
      obtain ⟨husername, hpassword⟩ := Prod.mk.inj heq
      rw [hsplit, ← husername, ← hpassword, String.toList_ofList, String.toList_ofList]
    · intro h
      rw [h]
      simp
  · intro ha hb heq
    have hsplit := (splitOnce_credential a).mpr ha
    rw [heq, (splitOnce_credential b).mpr hb] at hsplit
    obtain ⟨husername, hpassword⟩ := Prod.mk.inj (Option.some.inj hsplit)
    exact ⟨String.toList_inj.mp husername.symm, String.toList_inj.mp hpassword.symm⟩

end

/-- The environment with a decoder of base64. -/
def decodingEnv : AuthEnv := {sampleEnv with base64Decode := fun text => Base64.decode text.toList}

theorem decodingEnv_decode (bytes : Bytes) :
    decodingEnv.base64Decode (String.ofList (Base64.encode bytes)) = some bytes := by
  show Base64.decode (String.ofList (Base64.encode bytes)).toList = some bytes
  rw [String.toList_ofList]
  exact Base64.decode_encode bytes

/-- Accounts that were created with these credentials. -/
def account (username password : String) (h : trim username.toList ≠ [] ∧ trim password.toList ≠ []) : StoredAccount :=
  ⟨username, password, (stored_iff username password).mpr h⟩

/-- A request with the credentials `u:p`. -/
def plainBlock : AuthBlock (account "u" "p" (by decide)) where
  header := "GET http://a/ HTTP/1.1\r\nProxy-Authorization: Basic dTpw\r\n\r\n"
  before := ["GET http://a/ HTTP/1.1".toList]
  name := "Proxy-Authorization".toList
  leading := [' ']
  trailing := []
  after := [[]]
  lines_eq := by decide +kernel
  first := by decide +kernel
  spelled := by decide
  blank := fun _ h => .inl (List.mem_singleton.mp h)

theorem stored_accounts_log_in_plain :
    parseBasicProxyAuth decodingEnv plainBlock.header = some ("u", "p") :=
  (stored_accounts_log_in decodingEnv decodingEnv_decode (account "u" "p" (by decide)) (account "u" "p" (by decide))
    plainBlock).1.mpr (by decide)

/-- A request with the credentials of the account `a:b` with the password `c`. -/
def colonBlock : AuthBlock (account "a:b" "c" (by decide)) where
  header := "GET http://a/ HTTP/1.1\r\nProxy-Authorization: Basic YTpiOmM=\r\n\r\n"
  before := ["GET http://a/ HTTP/1.1".toList]
  name := "Proxy-Authorization".toList
  leading := [' ']
  trailing := []
  after := [[]]
  lines_eq := by decide +kernel
  first := by decide +kernel
  spelled := by decide
  blank := fun _ h => .inl (List.mem_singleton.mp h)

/-- It is read as the account `a` with the password `b:c`, which has the same credentials. -/
theorem colonBlock_other_account :
    parseBasicProxyAuth decodingEnv colonBlock.header ≠ some ("a:b", "c") ∧
      parseBasicProxyAuth decodingEnv colonBlock.header = some ("a", "b:c") ∧
      (account "a:b" "c" (by decide)).credential = (account "a" "b:c" (by decide)).credential := by
  have hparse : parseBasicProxyAuth decodingEnv colonBlock.header = some ("a", "b:c") := by
    rw [colonBlock.basicCredentials_eq decodingEnv_decode]
    decide
  refine ⟨?_, hparse, by decide⟩
  rw [hparse]
  decide

end Rps.Controller.HttpProxy
