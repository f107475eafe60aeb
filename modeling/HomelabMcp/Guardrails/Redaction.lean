import Mathlib.Data.List.Dedup
import Mathlib.Data.List.DropRight
import HomelabMcp.Guardrails.WriteGuards
import HomelabMcp.Lib.Backtrack

/-!
# Redaction of secrets (redaction.ts)

Text goes through one pass after the other: first the shapes of secrets, then what has the name
of a secret, then what only looks random. Each pass replaces by markers what it takes for a
secret, and counts.

- `redactString`: all passes.
-/

namespace HomelabMcp.Redaction

open Text Guardrails Backtrack Backtrack.Pat

/-! ## Markers -/

/-- The HMAC of a secret under the key of this installation, eight digits of it. Without a key
there is none. -/
structure Fingerprint where
  digits : Option (Str → Str)
  hex : ∀ f, digits = some f → ∀ s, (f s).length = 8 ∧ (f s).all hexDigit = true

def fingerprintField (fp : Fingerprint) (secret : Str) : Str :=
  match fp.digits with
  | none => []
  | some f => " fp=".toList ++ f secret

/-- redaction.ts:49. -/
def redactionMarker (fp : Fingerprint) (secret : Str) : Str :=
  "<redacted len=".toList ++ numeral (codeUnits secret).length ++ fingerprintField fp secret ++
    ['>']

/-- redaction.ts:58. -/
def containsRedactionMarker (text : Str) : Bool :=
  includes text "<redacted".toList || includes text "[REDACTED".toList

/-! ## Character classes -/

def among (s : String) (c : Char) : Bool :=
  s.toList.contains c

/-- `[^…]`. -/
def noneOf (s : String) (c : Char) : Bool :=
  !among s c

/-- `[^\s…]`. -/
def solid (s : String) (c : Char) : Bool :=
  !isSpace c && noneOf s c

/-- `[A-Za-z0-9…]`. -/
def alnumOr (s : String) (c : Char) : Bool :=
  c.isAlphanum || among s c

/-- `[A-Za-z_]`. -/
def startsName (c : Char) : Bool :=
  c.isAlpha || c == '_'

/-- `[0-9a-fA-F]`. -/
def isHex (c : Char) : Bool :=
  c.isDigit || ('a' ≤ c && c ≤ 'f') || ('A' ≤ c && c ≤ 'F')

def anyChar (_ : Char) : Bool := true

def dot (c : Char) : Bool :=
  !isLineTerminator c

def spaces : Pat :=
  many (.cls isSpace)

def spaces1 : Pat :=
  plus (.cls isSpace)

/-- One of some words, in either case. -/
def wordsI (words : List String) : Pat :=
  oneOf (words.map fun w => litI w.toList)

def quotes : String := "\"'"

/-! ## Names of secrets -/

/-- redaction.ts:90, under `i`. -/
def keyPatterns : List Pat :=
  [litI "webhook".toList, litI "token".toList, litI "secret".toList,
    .seq (litI "pass".toList) (opt (wordsI ["word", "wd"])),
    concat [litI "api".toList, opt (.cls (among "_-")), litI "key".toList],
    concat [.alt .atStart (.cls (among "._-")), litI "key".toList, .atEnd],
    concat [.atStart, litI "key".toList, .atEnd],
    litI "auth".toList, litI "cookie".toList, litI "credential".toList, litI "private".toList,
    litI "session".toList, litI "signature".toList, litI "salt".toList, litI "dsn".toList,
    concat [litI "conn".toList, opt (litI "ection".toList), opt (.cls (among "_-")),
      litI "string".toList],
    concat [litI "access".toList, opt (.cls (among "_-")), litI "key".toList],
    litI "psk".toList,
    concat [litI "wireguard".toList, .star true (.cls dot), litI "key".toList]]

/-- redaction.ts:117. -/
def buildKeyNameRegex (extraKeys : List Str) : Pat :=
  oneOf (keyPatterns ++ (extraKeys.filter fun k => decide (k ≠ [])).map litI)

/-- `/^(["'])(.*)\1$/s`. -/
def quotedPattern : Pat :=
  concat [.atStart, .group 1 (.cls (among quotes)), .group 2 (many (.cls anyChar)), .backref 1,
    .atEnd]

def unquote (s : Str) : Str :=
  match quotedPattern.find s with
  | some m => m.group 2
  | none => s

/-- `/^(?:true|false|yes|no|on|off|null|none|nil|undefined)$/i`. -/
def plainWord : Pat :=
  concat [.atStart, wordsI ["true", "false", "yes", "no", "on", "off", "null", "none", "nil",
    "undefined"], .atEnd]

/-- `[A-Za-z_][A-Za-z0-9_]*`. -/
def variableName : Pat :=
  .seq (.cls startsName) (many (.cls (alnumOr "_")))

/-- `${VAR}`, or with a message for when it is not set. -/
def bracedVariable : Pat :=
  concat [.atStart, lit "$\x7b", variableName,
    opt (concat [opt (lit ":"), lit "?", many (.cls (noneOf "\x7d"))]), lit "\x7d", .atEnd]

def bareVariable : Pat :=
  concat [.atStart, lit "$", variableName, .atEnd]

/-- redaction.ts:123. -/
def isExemptValue (raw : Str) : Bool :=
  let v := trim (unquote (trim raw))
  decide (v = []) || containsRedactionMarker v || plainWord.test v || bracedVariable.test v ||
    bareVariable.test v

/-- `/^(\\?["'])(.*)(\1)$/s`. -/
def maskedQuotes : Pat :=
  concat [.atStart, .group 1 (.seq (opt (lit "\\")) (.cls (among quotes))),
    .group 2 (many (.cls anyChar)), .group 3 (.backref 1), .atEnd]

/-- redaction.ts:136. -/
def maskValue (fp : Fingerprint) (raw : Str) : Str :=
  match maskedQuotes.find raw with
  | some q => q.group 1 ++ redactionMarker fp (q.group 2) ++ q.group 3
  | none => redactionMarker fp raw

/-! ## Shapes of secrets -/

section
variable (fp : Fingerprint)

/-- A match that stays. -/
def keep (m : Found) : Str × Nat :=
  (m.whole, 0)

/-- A match of which a part is marked. -/
def marked (front secret back : Str) : Str × Nat :=
  (front ++ redactionMarker fp secret ++ back, 1)

/-- The second group is marked, unless it has a marker already. -/
def markUnlessMarked (m : Found) : Str × Nat :=
  if containsRedactionMarker (m.group 2) then keep m else marked fp (m.group 1) (m.group 2) []

/-- The second group is marked. -/
def markSecond (m : Found) : Str × Nat :=
  marked fp (m.group 1) (m.group 2) []

def pemLabel (word : String) : Pat :=
  concat [lit word, many (.cls fun c => c.isUpper || c.isDigit || c == ' '), lit "PRIVATE KEY",
    many (.cls fun c => c.isUpper || c.isDigit || c == ' '), lit "-----"]

/-- PEM private keys. -/
def pemPattern : Pat :=
  concat [.group 1 (pemLabel "-----BEGIN "), .group 2 (.star true (.cls anyChar)),
    .group 3 (pemLabel "-----END ")]

def pemPass : Str → Str × Nat :=
  pemPattern.rewrite fun m =>
    if containsRedactionMarker (m.group 2) then keep m
    else marked fp (m.group 1 ++ [newline]) (trim (m.group 2)) (newline :: m.group 3)

/-- What ends a URL. -/
def urlStop : String := "\"'<>\x60"

def scheme : Pat :=
  concat [litI "http".toList, opt (litI ['s']), lit "://"]

/-- The webhooks of known services. -/
def webhookPattern : Pat :=
  .seq
    (.group 1 (concat [scheme, many (.seq (plus (.cls (alnumOr "-"))) (lit ".")),
      oneOf [concat [litI "discord".toList, opt (litI "app".toList), litI ".com/api/webhooks/".toList],
        concat [litI "hooks.slack.com/".toList, wordsI ["services", "workflows", "triggers"], lit "/"],
        concat [many (.cls (alnumOr "-")), opt (lit "."),
          litI "webhook.office.com/webhookb2/".toList]]]))
    (.group 2 (plus (.cls (solid urlStop))))

/-- `/(https?:\/\/[^\s/"'<>…]+(?:\/[^\s/"'<>…?#]+)*?\/(?:webhooks?|hooks)\/)([^\s"'<>…]+)/gi`. -/
def hookPathPattern : Pat :=
  .seq
    (.group 1 (concat [scheme, plus (.cls (solid ("/" ++ urlStop))),
      .star true (.seq (lit "/") (plus (.cls (solid ("/?#" ++ urlStop))))), lit "/",
      .alt (.seq (litI "webhook".toList) (opt (litI ['s']))) (litI "hooks".toList), lit "/"]))
    (.group 2 (plus (.cls (solid urlStop))))

/-- redaction.ts:147. -/
def notifySchemes : List String :=
  ["discord", "slack", "teams", "telegram", "tgram", "pushover", "pover", "pushbullet", "pbul",
    "gotify", "matrix", "mattermost", "rocketchat", "rocket", "zulip", "ifttt", "join", "opsgenie",
    "ntfy", "bark", "googlechat", "pagerduty", "signal"]

def notifyPattern : Pat :=
  concat [.wordBoundary, .group 1 (concat [wordsI notifySchemes, opt (litI ['s']), lit "://"]),
    .group 2 (plus (.cls (solid urlStop)))]

/-- `scheme://user:password@`. -/
def userinfoPattern : Pat :=
  concat [.wordBoundary,
    .group 1 (concat [.cls Char.isAlpha, many (.cls (alnumOr "+.-")), lit "://",
      many (.cls (solid (":/@" ++ urlStop)))]),
    lit ":", .group 2 (plus (.cls (solid ("/@" ++ urlStop)))), lit "@"]

def userinfoPass : Str → Str × Nat :=
  userinfoPattern.rewrite fun m =>
    if containsRedactionMarker (m.group 2) then keep m
    else marked fp (m.group 1 ++ [':']) (m.group 2) ['@']

/-- redaction.ts:150. -/
def querySecretNames : Pat :=
  concat [.atStart, wordsI ["token", "key", "apikey", "api_key", "api-key", "access_token", "secret",
    "sig", "signature", "password", "passwd", "pwd", "auth", "code", "client_secret"], .atEnd]

def queryPattern : Pat :=
  concat [.group 1 (.cls (among "?&;")), .group 2 (plus (.cls (alnumOr "_.-"))), lit "=",
    .group 3 (plus (.cls (solid ("&#" ++ urlStop))))]

def queryPass (keyRe : Pat) : Str → Str × Nat :=
  queryPattern.rewrite fun m =>
    if (querySecretNames.test (m.group 2) || keyRe.test (m.group 2)) && !isExemptValue (m.group 3)
    then marked fp (m.group 1 ++ m.group 2 ++ ['=']) (m.group 3) []
    else keep m

def uuid : Pat :=
  concat [times 8 (.cls isHex), lit "-", times 4 (.cls isHex), lit "-", times 4 (.cls isHex),
    lit "-", times 4 (.cls isHex), lit "-", times 12 (.cls isHex)]

/-- PVE API tokens. -/
def pveTokenPattern : Pat :=
  .seq (.group 1 (concat [lit "!", plus (.cls (alnumOr "._-")), lit "="])) (.group 2 uuid)

def authorizationPattern : Pat :=
  concat [.wordBoundary,
    .group 1 (concat [opt (litI "Proxy-".toList), litI "Authorization".toList, spaces,
      .cls (among ":="), spaces]),
    opt (.seq (.group 2 (wordsI ["Bearer", "Basic", "Token", "Digest", "Negotiate", "Bot"]))
      spaces1),
    .group 3 (plus (.cls (solid "\"'\x60,;")))]

def authorizationPass : Str → Str × Nat :=
  authorizationPattern.rewrite fun m =>
    if containsRedactionMarker (m.group 3) then keep m
    else marked fp (m.group 1 ++ match m.group? 2 with
        | some scheme => scheme ++ [' ']
        | none => []) (m.group 3) []

def bearerPattern : Pat :=
  concat [.wordBoundary, .group 1 (.seq (lit "Bearer") spaces1),
    .group 2 (atLeast 8 (.cls (alnumOr "._~+/=-")))]

def headerPattern : Pat :=
  concat [.wordBoundary,
    .group 1 (concat [wordsI ["x-api-key", "x-auth-token", "x-access-token", "api-key",
      "x-gitlab-token", "private-token", "cookie", "set-cookie"], spaces, lit ":", spaces]),
    .group 2 (plus (.cls fun c => c != carriageReturn && c != newline && noneOf "\"'\x60" c))]

def headerPass : Str → Str × Nat :=
  headerPattern.rewrite fun m =>
    if containsRedactionMarker (m.group 2) then keep m
    else marked fp (m.group 1) (trim (m.group 2)) []

/-- A known beginning of a token, and what follows it. -/
def prefixedPattern (front back : Pat) : Pat :=
  concat [.wordBoundary, .group 1 front, .group 2 back]

/-- redaction.ts:273. -/
def tokenPatterns : List Pat :=
  [prefixedPattern (concat [lit "gh", .cls (among "pousr"), lit "_"]) (atLeast 20 (.cls (alnumOr ""))),
    prefixedPattern (lit "github_pat_") (atLeast 20 (.cls (alnumOr "_"))),
    prefixedPattern (lit "glpat-") (atLeast 20 (.cls (alnumOr "_-"))),
    prefixedPattern (concat [lit "xox", .cls (among "abposr"), lit "-"])
      (atLeast 10 (.cls (alnumOr "-"))),
    prefixedPattern (.seq (lit "sk-") (opt (oneOf [lit "ant-", lit "proj-"])))
      (atLeast 20 (.cls (alnumOr "_-"))),
    prefixedPattern (concat [.cls (among "rs"), lit "k_", oneOf [lit "live", lit "test"], lit "_"])
      (atLeast 16 (.cls (alnumOr ""))),
    prefixedPattern (.seq (lit "tskey-")
      (opt (oneOf [lit "auth-", lit "client-", lit "api-", lit "webhook-"])))
      (atLeast 10 (.cls (alnumOr "-"))),
    .seq (prefixedPattern (oneOf [lit "AKIA", lit "ASIA"])
      (times 16 (.cls fun c => c.isDigit || c.isUpper))) .wordBoundary]

def jwtPart : Pat :=
  .seq (plus (.cls (alnumOr "_-"))) (many (lit "="))

def jwtPattern : Pat :=
  concat [.wordBoundary, lit "eyJ", jwtPart, lit ".", jwtPart, lit ".", jwtPart]

def jwtPass : Str → Str × Nat :=
  jwtPattern.rewrite fun m => marked fp [] m.whole []

/-- redaction.ts:201, before the names of secrets. -/
def shapePasses (keyRe : Pat) : List (Str → Str × Nat) :=
  [pemPass fp, webhookPattern.rewrite (markSecond fp), hookPathPattern.rewrite (markUnlessMarked fp),
    notifyPattern.rewrite (markUnlessMarked fp), userinfoPass fp, queryPass fp keyRe,
    pveTokenPattern.rewrite (markSecond fp), authorizationPass fp,
    bearerPattern.rewrite (markUnlessMarked fp), headerPass fp] ++
  tokenPatterns.map (fun p => p.rewrite (markSecond fp)) ++ [jwtPass fp]

/-! ## Values of secret names -/

/-- `"(?:[^"\\\n]|\\.)*"`. -/
def jsonString : Pat :=
  concat [lit "\"", many (.alt (.cls (noneOf "\"\\\n")) (.seq (lit "\\") (.cls dot))), lit "\""]

def jsonNumber : Pat :=
  concat [opt (lit "-"), plus (.cls Char.isDigit), opt (.seq (lit ".") (plus (.cls Char.isDigit)))]

def jsonPattern : Pat :=
  concat [lit "\"", .group 1 (.seq (.cls (noneOf "\"\\\n")) (atMost 127 (.cls (noneOf "\"\\\n")))),
    lit "\"", .group 2 (concat [spaces, lit ":", spaces]), .group 3 (.alt jsonString jsonNumber)]

def jsonPass (keyRe : Pat) : Str → Str × Nat :=
  jsonPattern.rewrite fun m =>
    if keyRe.test (m.group 1) && !isExemptValue (m.group 3) then
      let front := '"' :: m.group 1 ++ '"' :: m.group 2
      if (m.group 3).head? = some '"' then (front ++ maskValue fp (m.group 3), 1)
      else marked fp (front ++ ['"']) (m.group 3) ['"']
    else keep m

/-- `<ApiKey>value</ApiKey>`. -/
def xmlPattern : Pat :=
  concat [lit "<", .group 1 (.seq (.cls startsName) (many (.cls (alnumOr "_.-")))), lit ">",
    .group 2 (many (.cls (noneOf "<\n"))), lit "</", .backref 1, lit ">"]

def xmlPass (keyRe : Pat) : Str → Str × Nat :=
  xmlPattern.rewrite fun m =>
    if keyRe.test (m.group 1) && !isExemptValue (m.group 2) then
      marked fp ('<' :: m.group 1 ++ ['>']) (m.group 2) ("</".toList ++ m.group 1 ++ ['>'])
    else keep m

/-! ### Line by line -/

/-- redaction.ts:428. -/
def lineKv : Pat :=
  concat [.atStart,
    .group 1 (concat [spaces, opt (.seq (lit "-") spaces1), opt (.seq (lit "export") spaces1),
      .group 2 (opt (.cls (among quotes)))]),
    .group 3 (plus (.cls (alnumOr "_.-"))),
    .group 4 (concat [opt (.backref 2), spaces, .cls (among ":="), many (.cls (among " \t"))]),
    .group 5 (many (.cls dot)), .atEnd]

/-- `/^[|>][-+0-9]*$/`. -/
def blockScalar : Pat :=
  concat [.atStart, .cls (among "|>"), many (.cls fun c => c.isDigit || among "-+" c), .atEnd]

/-- `/^(.*?)(["'],?)$/`. -/
def closingQuote : Pat :=
  concat [.atStart, .group 1 (.star true (.cls dot)),
    .group 2 (.seq (.cls (among quotes)) (opt (lit ","))), .atEnd]

/-- `/^(.*?)(,)$/`. -/
def closingComma : Pat :=
  concat [.atStart, .group 1 (.star true (.cls dot)), .group 2 (lit ","), .atEnd]

def indentOf (line : Str) : Nat :=
  (line.takeWhile isSpace).length

/-- The value of a line, and what stays behind it (redaction.ts:461). -/
def splitTail (m : Found) (value : Str) : Str × Str :=
  let keyClosed := decide (m.group 2 ≠ []) && (m.group 2).isPrefixOf (m.group 4)
  let closing := if m.group 2 ≠ [] ∧ keyClosed = false then closingQuote else closingComma
  match closing.find value with
  | some t => (t.group 1, t.group 2)
  | none => (value, [])

/-- A line that gives a secret name a value on the line itself. -/
def maskLine (m : Found) (line : Str) : Str × Nat :=
  let value := (m.group 5).rdropWhile isSpace
  if value = [] ∨ value.head? = some '{' ∨ value.head? = some '[' ∨ isExemptValue value = true then
    (line, 0)
  else
    let (body, tail) := splitTail m value
    if isExemptValue body then (line, 0)
    else (m.group 1 ++ m.group 3 ++ m.group 4 ++ maskValue fp body ++ tail, 1)

/-- What a line makes of the text below it: the indentation of the key of a block scalar. -/
def opensBlock (keyRe : Pat) (line : Str) : Option Nat :=
  match lineKv.find line with
  | some m =>
    if keyRe.test (m.group 3) && blockScalar.test ((m.group 5).rdropWhile isSpace) then
      some (indentOf line)
    else none
  | none => none

def redactLine (keyRe : Pat) (line : Str) : Str × Nat :=
  match lineKv.find line with
  | some m =>
    if keyRe.test (m.group 3) && !blockScalar.test ((m.group 5).rdropWhile isSpace) then
      maskLine fp m line
    else (line, 0)
  | none => (line, 0)

/-- A line of a block scalar. -/
def maskBlockLine (line : Str) : Str × Nat :=
  if containsRedactionMarker line then (line, 0)
  else (line.takeWhile isSpace ++ redactionMarker fp (trim line), 1)

/-- Whether the line is part of the block that is open. -/
def inBlock (block : Option Nat) (line : Str) : Bool :=
  match block with
  | some indent => decide (trim line = []) || decide (indent < indentOf line)
  | none => false

/-- The loop of redaction.ts:430: `block` is the indentation of the key whose block is open. -/
def redactLinesFrom (keyRe : Pat) : Option Nat → List Str → List Str × Nat
  | _, [] => ([], 0)
  | block, line :: rest =>
    if inBlock block line then
      let here := if trim line = [] then (line, 0) else maskBlockLine fp line
      let next := redactLinesFrom keyRe block rest
      (here.1 :: next.1, here.2 + next.2)
    else
      let here := redactLine fp keyRe line
      let next := redactLinesFrom keyRe (opensBlock keyRe line) rest
      (here.1 :: next.1, here.2 + next.2)

/-- redaction.ts:430. -/
def redactLines (keyRe : Pat) (text : Str) : Str × Nat :=
  let done := redactLinesFrom fp keyRe none (List.splitOn newline text)
  ([newline].intercalate done.1, done.2)

/-! ### Within a line -/

/-- `(?<![A-Za-z0-9_.])([A-Za-z_][A-Za-z0-9_.-]*)=`. -/
def nameEq : Pat :=
  concat [.notAfter (alnumOr "_."), .group 1 (.seq (.cls startsName) (many (.cls (alnumOr "_.-")))),
    lit "="]

/-- The loop of redaction.ts:411, from a place in the token on. -/
def commaTailFrom (keyRe : Pat) : Nat → Str → Str → Str × Nat
  | 0, _, rest => (rest, 0)
  | fuel + 1, before, rest =>
    match nameEq.findFrom before rest with
    | none => (rest, 0)
    | some (m, t) =>
      let head := rest.take (rest.length - t.rest.length)
      if t.rest = [] then (rest, 0)
      else if keyRe.test (m.group 1) && !isExemptValue t.rest then
        (head ++ maskValue fp t.rest, 1)
      else if ',' ∈ t.rest then
        let piece := t.rest.takeWhile (fun c => c != ',') ++ [',']
        let next := commaTailFrom keyRe fuel (piece.reverse ++ t.before) (t.rest.drop piece.length)
        (head ++ piece ++ next.1, next.2)
      else (rest, 0)

/-- redaction.ts:409, from the first comma of the token on. -/
def redactCommaTail (keyRe : Pat) (token : Str) : Str × Nat :=
  let front := token.takeWhile (fun c => c != ',') ++ [',']
  let back := token.drop front.length
  let done := commaTailFrom fp keyRe back.length front.reverse back
  (front ++ done.1, done.2)

/-- `\\"(?:[^"\\\n]|\\[^"])*\\"`. -/
def escapedQuoted : Pat :=
  concat [lit "\\\"", many (.alt (.cls (noneOf "\"\\\n")) (.seq (lit "\\") (.cls (noneOf "\"")))),
    lit "\\\""]

def doubleQuoted : Pat :=
  concat [lit "\"", many (.cls (noneOf "\"\n")), lit "\""]

def singleQuoted : Pat :=
  concat [lit "'", many (.cls (noneOf "'\n")), lit "'"]

def bareValue : Pat :=
  plus (.cls (solid "\"'\x60"))

def inlinePattern : Pat :=
  concat [.notAfter (alnumOr "_."), .group 1 (.seq (.cls startsName) (many (.cls (alnumOr "_.-")))),
    .group 2 (concat [spaces, lit "=", spaces]),
    .group 3 (oneOf [concat [lit "<redacted", many (.cls (noneOf ">")), lit ">"], doubleQuoted,
      singleQuoted, escapedQuoted, bareValue])]

/-- `NAME=value`. -/
def inlineMark (keyRe : Pat) (m : Found) : Str × Nat :=
  let value := m.group 3
  if keyRe.test (m.group 1) && !isExemptValue value then
    (m.group 1 ++ m.group 2 ++ maskValue fp value, 1)
  else if ',' ∉ value ∨ (value.head?.map (among "\"'\\<")).getD false = true then keep m
  else
    let tail := redactCommaTail fp keyRe value
    (m.group 1 ++ m.group 2 ++ tail.1, tail.2)

def flagPattern : Pat :=
  concat [.notAfter (alnumOr "_-"),
    .group 1 (concat [lit "--", .cls Char.isAlpha, many (.cls (alnumOr "_-"))]),
    .group 2 (plus (.cls (among " \t"))), .notBefore (among "-"),
    .group 3 (oneOf [doubleQuoted, singleQuoted, bareValue])]

/-- `--password value`. -/
def flagPass (keyRe : Pat) : Str → Str × Nat :=
  flagPattern.rewrite fun m =>
    if keyRe.test ((m.group 1).drop 2) && !isExemptValue (m.group 3) then
      (m.group 1 ++ m.group 2 ++ maskValue fp (m.group 3), 1)
    else keep m

/-- redaction.ts:293. -/
def namePasses (keyRe : Pat) : List (Str → Str × Nat) :=
  [jsonPass fp keyRe, xmlPass fp keyRe, redactLines fp keyRe,
    inlinePattern.rewrite (inlineMark fp keyRe), flagPass fp keyRe]

/-! ## What looks random -/

/-- redaction.ts:167. -/
def allowedRunContext : Pat :=
  .seq (oneOf
    [concat [litI "sha".toList, oneOf [lit "1", lit "224", lit "256", lit "384", lit "512"],
        .cls (among ":-")],
      .seq (litI "md5".toList) (.cls (among ":-")),
      .seq (oneOf [.seq (litI "ssh-".toList) (wordsI ["rsa", "dss", "ed25519"]),
        .seq (litI "ecdsa-sha2-nistp".toList) (plus (.cls Char.isDigit)),
        litI "sk-ssh-ed25519@openssh.com".toList]) (lit " "),
      .seq (wordsI ["node", "disco", "machine", "m"]) (litI "key:".toList),
      concat [litI "public".toList, opt (.cls (among " _-")), litI "key".toList,
        opt (.cls (among quotes)), spaces, .cls (among ":="), spaces, opt (.cls (among quotes))],
      concat [litI "fingerprint".toList, opt (.cls (among quotes)), spaces, .cls (among ":="), spaces,
        opt (.cls (among quotes))]]) .atEnd

/-- The 48 characters before a match. -/
def contextOf (m : Found) : Str :=
  (m.before.take 48).reverse

/-- redaction.ts:170. -/
def isAllowedHexRun (m : Found) : Bool :=
  allowedRunContext.test (contextOf m) ||
    (m.whole.all hexDigit && (m.whole.length == 40 || m.whole.length == 64 || m.whole.length == 128))

/-- `shannonBitsPerChar(s) >= 4.2`, both sides as powers of two: for `N` characters, of which a
character makes up `n`, the entropy is `log₂ N` less the mean of the `log₂ n`. -/
def atLeastBits (s : Str) : Bool :=
  let n := s.length
  decide (n ≠ 0) &&
    decide (2 ^ (21 * n) * (s.dedup.map fun c => (s.count c) ^ (5 * s.count c)).prod ≤ n ^ (5 * n))

/-- redaction.ts:176. -/
def isHighEntropyBase64 (run : Str) : Bool :=
  run.any Char.isUpper && run.any Char.isLower && run.any Char.isDigit &&
    atLeastBits (run.rdropWhile fun c => c == '=')

def hexRunPattern : Pat :=
  concat [.notAfter (alnumOr "_"), atLeast 32 (.cls isHex), .notBefore (alnumOr "_")]

def hexPass : Str → Str × Nat :=
  hexRunPattern.rewrite fun m => if isAllowedHexRun m then keep m else marked fp [] m.whole []

def base64RunPattern : Pat :=
  concat [.notAfter (alnumOr "+/_-"), atLeast 32 (.cls (alnumOr "+/_-")), atMost 2 (lit "="),
    .notBefore (alnumOr "+/=_-")]

def base64Pass : Str → Str × Nat :=
  base64RunPattern.rewrite fun m =>
    if m.whole.all isHex then keep m
    else if m.whole.head? = some '/' ∨ includes m.whole "//".toList = true then keep m
    else if allowedRunContext.test (contextOf m) then keep m
    else if isHighEntropyBase64 m.whole then marked fp [] m.whole []
    else keep m

/-- All passes in their order. -/
def passes (keyRe : Pat) : List (Str → Str × Nat) :=
  shapePasses fp keyRe ++ namePasses fp keyRe ++ [hexPass fp, base64Pass fp]

/-- redaction.ts:189: the new text, and how often a marker was put. -/
def redactString (extraKeys : List Str) (text : Str) : Str × Nat :=
  inTurn (passes fp (buildKeyNameRegex extraKeys)) text

end

end HomelabMcp.Redaction
