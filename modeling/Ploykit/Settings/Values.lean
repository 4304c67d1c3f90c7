import Ploykit.Platform.Json
import Ploykit.Platform.JsonStrings

/-!
# Settings

`settings/keys.go`, `verify_meta.go` and what `store.go` and `seal.go` do for one row. `strings.ToLower` is given by what it does
outside of ASCII, and a sealer by its two functions. Without a row a key has the value of its environment variable or its default,
which is one text here (`fallback`).
-/

namespace Ploykit.Settings

open Text

inductive Key where
  | bannerText
  | bannerKind
  | maintenanceMode
  | allowSignup
  | allowedDomains
  | rateLimitPerUserPerMin
  | rateLimitPerIPPerMin
  | rateLimitAllowlist
  | smtpHost
  | smtpPort
  | smtpUser
  | smtpPass
  | smtpFrom
  | siteVerificationMeta
  | shellNavHidden
  /-- A key that is none of the built-in ones. -/
  | other (key : String)
  deriving DecidableEq

def Key.text : Key → String
  | .bannerText => "banner_text"
  | .bannerKind => "banner_kind"
  | .maintenanceMode => "maintenance_mode"
  | .allowSignup => "allow_signup"
  | .allowedDomains => "allowed_domains"
  | .rateLimitPerUserPerMin => "rate_limit_per_user_per_min"
  | .rateLimitPerIPPerMin => "rate_limit_per_ip_per_min"
  | .rateLimitAllowlist => "rate_limit_allowlist"
  | .smtpHost => "smtp_host"
  | .smtpPort => "smtp_port"
  | .smtpUser => "smtp_user"
  | .smtpPass => "smtp_pass"
  | .smtpFrom => "smtp_from"
  | .siteVerificationMeta => "site_verification_meta"
  | .shellNavHidden => "shell_nav_hidden"
  | .other key => key

def KeyOrder : List Key :=
  [.bannerText, .bannerKind, .maintenanceMode, .allowSignup, .allowedDomains, .rateLimitPerUserPerMin, .rateLimitPerIPPerMin,
    .rateLimitAllowlist, .smtpHost, .smtpPort, .smtpUser, .smtpPass, .smtpFrom, .siteVerificationMeta, .shellNavHidden]

def BillingChannelKeyPrefix : Text := "billing_channel.".toList

def IsSensitive : Key → Bool
  | .smtpPass => true
  | .other key => BillingChannelKeyPrefix.isPrefixOf key.toList
  | _ => false

/-! ## Values -/

def KindInfo : Text := "info".toList
def KindWarn : Text := "warn".toList
def FlagOff : Text := ['0']
def FlagOn : Text := ['1']

/-- `strconv.Atoi` -/
def Atoi (s : Text) : Option Int := (Strconv.parseSigned s).filter fun n => Strconv.IsInt64 n

def validRatePerMin (n : Int) : Bool := 0 ≤ n && n ≤ 100000

def validSMTPPort (n : Int) : Bool := 1 ≤ n && n ≤ 65535

def parseSMTPPort (v : Text) : Int := ((Atoi (TrimSpace v)).filter validSMTPPort).getD 587

def parsePerMin (v : Text) (def' : Int) : Int := ((Atoi (TrimSpace v)).filter validRatePerMin).getD def'

def hostCharsetOK (s : Text) : Bool := s.all fun c => c.isAlphanum || c = '.' || c = '-'

def printableASCII (s : Text) : Bool := s.all fun c => 0x20 ≤ c.val && c.val ≤ 0x7E

/-- `\\s` of a regular expression. -/
def reSpace (c : Char) : Bool := c = '\t' || c = '\n' || c = '\x0c' || c = '\r' || c = ' '

/-- `^[^@\\s]+@[^@\\s]+\\.[^@\\s]+$` -/
def emailFmt (s : Text) : Bool :=
  let domain := (s.dropWhile (· ≠ '@')).drop 1
  s.all (fun c => !reSpace c) && s.takeWhile (· ≠ '@') ≠ [] && '@' ∈ s && '@' ∉ domain && '.' ∈ (domain.drop 1).dropLast

def emailValid (s : Text) : Bool := size s ≤ 254 && emailFmt s

def SplitIPAllowlist (csv : Text) : List Text := splitSet TrimSpace csv

/-- `net.ParseCIDR` succeeds. -/
def cidrOK (s : Text) : Bool :=
  let addr := s.takeWhile (· ≠ '/')
  let mask := (s.dropWhile (· ≠ '/')).drop 1
  let bits := if addr.find? (fun c => c = '.' || c = ':') = some '.' then 32 else 128
  '/' ∈ s && (Net.ParseIP addr).isSome && mask ≠ [] && mask.all Net.isDigit && Net.number 10 mask ≤ bits

def ipOrCIDROK (s : Text) : Bool := cidrOK s || (Net.ParseIP s).isSome

/-- `unicode.ToLower` -/
def ToLower (other : Char → Char) (c : Char) : Char := if c.val < 0x80 then c.toLower else other c

def SplitDomains (other : Char → Char) (csv : Text) : List Text := splitSet (fun p => (TrimSpace p).map (ToLower other)) csv

def domainOK (d : Text) : Bool :=
  d ≠ [] && '.' ∈ d && size d ≤ 253 && d.all fun c => ('a' ≤ c && c ≤ 'z') || ('0' ≤ c && c ≤ '9') || c = '.' || c = '-'

/-! ## The verification tag -/

/-- The text after a literal, whatever the case of its letters. -/
def afterLiteral (literal s : Text) : Option Text :=
  if (s.take literal.length).map Char.toLower = literal then some (s.drop literal.length) else none

/-- `\\s+` -/
def afterSpaces (s : Text) : Option Text := if s.head?.any reSpace then some (s.dropWhile reSpace) else none

/-- verificationMetaTagRe, with its two groups. -/
def matchTag (s : Text) : Option (Text × Text) := do
  let s ← afterSpaces (← afterLiteral "<meta".toList (s.dropWhile reSpace))
  let s ← afterLiteral "name=\"".toList s
  let name := s.takeWhile (· ≠ '"')
  let s ← afterSpaces (← afterLiteral ['"'] (s.dropWhile (· ≠ '"')))
  let s ← afterLiteral "content=\"".toList s
  let content := s.takeWhile (· ≠ '"')
  let s := (← afterLiteral ['"'] (s.dropWhile (· ≠ '"'))).dropWhile reSpace
  let s ← afterLiteral ['>'] (if s.head? = some '/' then s.drop 1 else s)
  if name ≠ [] ∧ s.all reSpace then return (name, content) else none

def verificationCharset : Text := "ABCDEFGHIJKLMNOPQRSTUVWXYZabcdefghijklmnopqrstuvwxyz0123456789_.:/+=-".toList

def verificationTokenOK (s : Text) : Bool := s ≠ [] && s.all fun c => verificationCharset.contains c

/-- The text before and after the first bar. -/
def cutBar (s : Text) : Option (Text × Text) :=
  if '|' ∈ s then some (s.takeWhile (· ≠ '|'), (s.dropWhile (· ≠ '|')).drop 1) else none

def normalizeVerificationMeta (raw : Text) : Option Text :=
  let raw := TrimSpace raw
  if raw = [] then some []
  else match matchTag raw with
    | some m => some (TrimSpace m.1 ++ '|' :: TrimSpace m.2)
    | none => (cutBar raw).map fun m => TrimSpace m.1 ++ '|' :: TrimSpace m.2

def check (c : Bool) (msg : String) : Except String Unit := if c then .ok () else .error msg

def ParseVerificationMeta (stored : Text) : Except String (Text × Text) :=
  match cutBar stored with
  | none => .error "site_verification_meta 存储形态必须是 name|content 对"
  | some (name, content) => do
    check (1 ≤ size name && size name ≤ 64) s!"site_verification_meta 的 name 长度须在 1..64（当前 {size name}）"
    check (1 ≤ size content && size content ≤ 256) s!"site_verification_meta 的 content 长度须在 1..256（当前 {size content}）"
    check (verificationTokenOK name) "site_verification_meta 的 name 含非法字符（仅允许字母/数字/_ . : / + = -）"
    check (verificationTokenOK content) "site_verification_meta 的 content 含非法字符（仅允许字母/数字/_ . : / + = -）"
    return (name, content)

def validateVerificationMeta (raw : Text) : Except String Unit :=
  match normalizeVerificationMeta raw with
  | none => .error "site_verification_meta 必须是完整的 <meta name=\"…\" content=\"…\"> 标签或 name|content 对"
  | some norm => if norm = [] then .ok () else (ParseVerificationMeta norm).map fun _ => ()

/-! ## Validation and normalisation -/

/-- The key is `billing_channel.<name>.<field>`. -/
def channelShape (key : Text) : Bool :=
  let rest := key.drop BillingChannelKeyPrefix.length
  let name := rest.takeWhile (· ≠ '.')
  let field := (rest.dropWhile (· ≠ '.')).drop 1
  '.' ∈ rest && name ≠ [] && field ≠ [] && '.' ∉ field

/-- The first part that fails, with its message. -/
def checkAll (ok : Text → Bool) (msg : Text → String) : List Text → Except String Unit
  | [] => .ok ()
  | p :: ps => if ok p then checkAll ok msg ps else .error (msg p)

/-- `%q` of a text without characters to escape. -/
def quoted (s : Text) : String := "\"" ++ String.ofList s ++ "\""

def Validate (other : Char → Char) (key : Key) (value : Text) : Except String Unit :=
  match key with
  | .bannerText => check (value.length ≤ 500) s!"公告文本最多 500 字（当前 {value.length}）"
  | .bannerKind => check (value = KindInfo || value = KindWarn) s!"banner_kind 必须是 {quoted KindInfo} 或 {quoted KindWarn}"
  | .maintenanceMode | .allowSignup =>
    check (value = FlagOff || value = FlagOn) s!"{key.text} 必须是 {quoted FlagOff} 或 {quoted FlagOn}"
  | .allowedDomains =>
    checkAll domainOK (fun d => s!"无效域名 {quoted d}（仅允许小写字母/数字/点/连字符，且至少含一个点）") (SplitDomains other value)
  | .rateLimitPerUserPerMin | .rateLimitPerIPPerMin =>
    check ((Atoi (TrimSpace value)).any validRatePerMin) s!"{key.text} 必须是 0..100000 的整数（0 = 关闭限流）"
  | .rateLimitAllowlist =>
    checkAll ipOrCIDROK (fun p => s!"无效 IP/CIDR {quoted p}（如 10.0.0.5 或 192.168.0.0/16）") (SplitIPAllowlist value)
  | .smtpHost =>
    check (value = [] || (size value ≤ 253 && hostCharsetOK value))
      "smtp_host 仅允许字母/数字/点/连字符且最多 253 字符（空 = 开发日志通道；端口走 smtp_port）"
  | .smtpPort =>
    check (value = [] || (Atoi (TrimSpace value)).any validSMTPPort) "smtp_port 必须是 1..65535 的整数（空 = 缺省 587）"
  | .smtpUser => check (size value ≤ 254 && printableASCII value) "smtp_user 最多 254 字符且仅允许可打印 ASCII 字符"
  | .smtpPass => check (size value ≤ 256) "smtp_pass 最多 256 字符"
  | .smtpFrom => check (value = [] || emailValid value) "smtp_from 必须是合法邮箱地址（如 no-reply@example.com）或空"
  | .siteVerificationMeta => validateVerificationMeta value
  | .shellNavHidden =>
    if value = [] then .ok ()
    else match JsonStrings.Unmarshal value with
      | none => .error "shell_nav_hidden 必须是 JSON 字符串数组（如 [\"/realtime\"]）"
      | some paths => do
        check (paths.length ≤ 64) s!"shell_nav_hidden 最多 64 项（当前 {paths.length}）"
        checkAll (fun p => p ≠ [] && size p ≤ 120 && p.head? = some '/')
          (fun p => s!"shell_nav_hidden 元素必须是 以 / 开头、≤120 字符的菜单路径（当前 {quoted p}）") paths
  | .other k =>
    if BillingChannelKeyPrefix.isPrefixOf k.toList then do
      check (channelShape k.toList) s!"{quoted k.toList} 必须形如 billing_channel.<渠道名>.<字段名>"
      check (size value ≤ 8192) s!"{k} 值过长（上限 8192 字符，当前 {size value}）"
    else
      let keys := String.intercalate ", " (KeyOrder.map Key.text)
      .error s!"未知设置键 {quoted k.toList}（白名单：{keys}）"

def Normalize (other : Char → Char) (key : Key) (value : Text) : Text :=
  match key with
  | .allowedDomains => join (SplitDomains other value)
  | .rateLimitAllowlist => join (SplitIPAllowlist value)
  | .siteVerificationMeta => (normalizeVerificationMeta value).getD (TrimSpace value)
  | _ => TrimSpace value

/-! ## The store -/

structure Sealer where
  Seal : Text → Option Text
  Unseal : Text → Option Text

structure Store where
  sealer : Option Sealer
  rows : Key → Option Text
  fallback : Key → Text

inductive StoreErr where
  | noSealer
  | sealing
  | unsealing
  | invalid (msg : String)
  deriving DecidableEq

namespace Store

variable (s : Store)

def sealValue (key : Key) (value : Text) : Except StoreErr Text :=
  if IsSensitive key = false then .ok value
  else match s.sealer with
    | none => .error .noSealer
    | some sealer =>
      match sealer.Seal value with
      | none => .error .sealing
      | some sealed => .ok sealed

def Set (key : Key) (value : Text) : Except StoreErr Store := do
  let sealed ← s.sealValue key value
  return { s with rows := Function.update s.rows key (some sealed) }

/-- `Validate`, `Normalize` and `Set`, as the handler calls them. -/
def put (other : Char → Char) (key : Key) (value : Text) : Except StoreErr Store :=
  match Validate other key value with
  | .error msg => .error (.invalid msg)
  | .ok () => s.Set key (Normalize other key value)

def value (key : Key) : Except StoreErr Text :=
  match s.rows key with
  | none => .ok (s.fallback key)
  | some v =>
    if IsSensitive key = false then .ok v
    else match s.sealer with
      | none => .error .unsealing
      | some sealer =>
        match sealer.Unseal v with
        | none => .error .unsealing
        | some plain => .ok plain

def RegistrationGate (other : Char → Char) : Except StoreErr (Bool × List Text) := do
  let v ← s.value .allowSignup
  let d ← s.value .allowedDomains
  return (v = FlagOn, SplitDomains other d)

def RateLimits : Except StoreErr (Int × Int × List Text) := do
  let u ← s.value .rateLimitPerUserPerMin
  let i ← s.value .rateLimitPerIPPerMin
  let a ← s.value .rateLimitAllowlist
  return (parsePerMin u 0, parsePerMin i 30, SplitIPAllowlist a)

structure SMTP where
  host : Text
  port : Int
  user : Text
  pass : Text
  sender : Text
  deriving DecidableEq

def SMTPConfig : Except StoreErr SMTP := do
  let host ← s.value .smtpHost
  let port ← s.value .smtpPort
  let user ← s.value .smtpUser
  let pass ← s.value .smtpPass
  let sender ← s.value .smtpFrom
  return ⟨host, parseSMTPPort port, user, pass, sender⟩

def SiteVerificationMeta : Except StoreErr Text := s.value .siteVerificationMeta

end Store

end Ploykit.Settings
