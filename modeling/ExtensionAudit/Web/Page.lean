import ExtensionAudit.Text.Basic

/-!
The page with the form in which a visitor names an extension.
-/

namespace ExtensionAudit.Web

/-- What the service is called. -/
def title : Text := "Chrome Extension Risk Analyzer"

/-- The lines of the page. -/
def pageLines : List String := [
  "<!DOCTYPE html>",
  "<html lang=\"en\">",
  "<head>",
  "  <meta charset=\"utf-8\">",
  "  <title>Chrome Extension Risk Analyzer</title>",
  "  <style>",
  "    body \x7b font-family: sans-serif; max-width: 48rem; margin: 3rem auto; \x7d",
  "    input[type=text] \x7b width: 100%; padding: .5rem; \x7d",
  "    pre \x7b background: #f4f4f4; padding: 1rem; overflow-x: auto; \x7d",
  "  </style>",
  "</head>",
  "<body>",
  "  <h1>Chrome Extension Risk Analyzer</h1>",
  "  <form id=\"analyze-form\">",
  "    <label for=\"extensionUrl\">Chrome Web Store URL or extension ID</label>",
  "    <input type=\"text\" id=\"extensionUrl\" name=\"extensionUrl\" required>",
  "    <button type=\"submit\">Analyze</button>",
  "  </form>",
  "  <pre id=\"result\" hidden></pre>",
  "  <script>",
  "    document.getElementById(\"analyze-form\").addEventListener(\"submit\", async (event) => \x7b",
  "      event.preventDefault();",
  "      const result = document.getElementById(\"result\");",
  "      result.hidden = false;",
  "      result.textContent = \"Analyzing...\";",
  "      const response = await fetch(\"/analyze-extension\", \x7b",
  "        method: \"POST\",",
  "        body: new FormData(event.target),",
  "      \x7d);",
  "      const text = await response.text();",
  "      try \x7b",
  "        result.textContent = JSON.stringify(JSON.parse(text), null, 2);",
  "      \x7d catch (e) \x7b",
  "        result.textContent = text;",
  "      \x7d",
  "    \x7d);",
  "  </script>",
  "</body>",
  "</html>"]

/-- The page. -/
def page : Text := Text.join "\n" (pageLines.map Text.ofString)

end ExtensionAudit.Web
