import JppDos.Http.Serve

/-!
# The verification page

`lrv_dispatch` of `jpp_lrv_server.c`: one page for every path, sent in chunks
whose results are not looked at.

Main facts:
* `lrvDispatch_api`: the page reaches the connection through the server API, so
  `lrvHandler` is a handler of the connection loop.
-/

namespace JppDos
namespace Http

open CText Numerals

/-- The texts that `send_verification_page` computes before it answers, as C
strings. -/
structure LrvPage where
  serial : Nat
  cert : List UInt8
  certHex : List UInt8
  certsigHex : List UInt8
  pubkeyHex : List UInt8
  challenge : List UInt8
  respsigHex : List UInt8
  certpageUrl : List UInt8

/-- The strings of the page, in order. -/
def LrvPage.pieces (d : LrvPage) : List (List UInt8) :=
  [ascii "<!DOCTYPE html><html><head><meta charset='utf-8'>" ++
      ascii "<meta name='viewport' content='width=device-width,initial-scale=1'>" ++
      ascii "<title>J++Device LRV</title>" ++
      ascii "<style>body\x7bfont-family:monospace;max-width:640px;margin:2em auto;" ++
      ascii "padding:0 1em\x7d" ++
      ascii "pre\x7bbackground:#f4f4f4;padding:1em;overflow-x:auto;white-space:pre-wrap;" ++
      ascii "word-break:break-all\x7d" ++
      ascii "hr\x7bmargin:1.5em 0\x7da.btn\x7bdisplay:inline-block;margin:.5em .5em .5em 0;" ++
      ascii "padding:.5em 1em;background:#0066cc;color:#fff;text-decoration:none;" ++
      ascii "border-radius:3px\x7d" ++
      ascii "</style></head><body>" ++
      ascii "<h2>J++Device Limited Run Verification</h2>",
    (ascii "<p><b>Serial:</b> #" ++ showBase 10 (d.serial % 2 ^ 32) ++ ascii "</p><hr>").take 63,
    ascii "<p><b>LRV Certificate (plaintext):</b></p><pre>",
    d.cert,
    ascii "</pre>",
    ascii "<p><b>LRV Certificate (hexadecimal):</b></p><pre>",
    d.certHex,
    ascii "</pre>",
    ascii "<p><b>Certificate signature:</b></p><pre>",
    d.certsigHex,
    ascii "</pre>",
    ascii "<p><b>Device public key:</b></p><pre>",
    d.pubkeyHex,
    ascii "</pre><hr>",
    (ascii "<p><b>Challenge:</b> <code>" ++ d.challenge ++ ascii "</code></p>").take 191,
    ascii "<p><b>Response signature:</b></p><pre>",
    d.respsigHex,
    ascii "</pre><hr>",
    (ascii "<a class='btn' href='" ++ d.certpageUrl ++
      ascii "'>Open Certificate Page</a>").take 1599,
    ascii "</body></html>"]

/-- Calls of `jpp_http_resp_sendstr_chunk` whatever their results. -/
def sendStrings (pieces : List (List UInt8)) (c : Conn) : Conn :=
  pieces.foldl (fun c data => (jppHttpRespSendChunk data c).2) c

/-- `send_verification_page`; without an identity there is no page. -/
def sendVerificationPage (page : Option LrvPage) (c : Conn) : Conn :=
  match page with
  | none => (jppHttpRespSendErr http500 (ascii "No LRV identity") c).2
  | some d =>
      sendStrings (d.pieces ++ [[]]) (jppHttpRespSetType (ascii "text/html; charset=utf-8") c)

/-- `lrv_dispatch`. -/
def lrvDispatch (page : Option LrvPage) (c : Conn) : Conn :=
  if c.req.method = ascii "GET" ∨ c.req.method = ascii "HEAD" then sendVerificationPage page c
  else
    (jppHttpRespSendErr http405 (ascii "Method not allowed")
      (jppHttpRespSetHdr (ascii "Allow") (ascii "GET, HEAD") c)).2

theorem sendStrings_api (pieces : List (List UInt8)) (c : Conn) :
    ApiReach c (sendStrings pieces c) := by
  induction pieces generalizing c with
  | nil => exact .refl
  | cons data pieces ih => exact .head (.sendChunk data c) (ih _)

/-- The page reaches the connection through the server API. -/
theorem lrvDispatch_api (page : Option LrvPage) (c : Conn) :
    ApiReach c (lrvDispatch page c) := by
  unfold lrvDispatch
  split
  · unfold sendVerificationPage
    split
    · exact .single (.sendErr _ _ c)
    · exact .head (.setHdr _ _ c) (sendStrings_api _ _)
  · exact .head (.setHdr _ _ c) (.single (.sendErr _ _ _))

/-- The verification server as a handler of the connection loop. -/
def lrvHandler (page : Option LrvPage) : Handler := ⟨lrvDispatch page, lrvDispatch_api page⟩

end Http
end JppDos
