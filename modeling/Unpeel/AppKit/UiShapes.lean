import Unpeel.Foundation.SerdeShapes

/-! # Shapes of the protocol's messages

The types that a frame is made of, as they are derived: one definition for each struct and each enum
with a tag, and a table of all types that fields refer to.
-/
namespace Unpeel.AppKit.UiFrames
open Serde

inductive UiType where
  | uiRendererMetadata | uiRendererState | appMetadata | uiNode | uiDeltaOperation | uiAckStatus
  | uiPresenceMember | textEdit | textSelection | markdownPresentation | markdownCommandHint
  | markdownEditorActions | semanticMenu | mediaSource | mediaPixelSize | surfaceReference | barChartBar
  | lineChartSeries | lineChartAxis | footerAction | listItem | contentSelection | contentLine | treeItem
  | treeChildState | uiEventKind | uiEventValue | uiParticipant | textRange | textPosition
  | markdownCommandHintVisibility | semanticMenuPresentation | semanticMenuAnchor | semanticMenuItem
  | barChartEmphasis | lineChartPoint | lineChartBounds | footerActionRole | listItemTextRun | listItemTone
  | listItemEmphasis | listItemSlot | listItemBand | listItemMedia | listItemActionRole | contentRun
  | contentLineTone | treeItemKind | uiParticipantKind | canvasSurface | canvasControl | footerActions
  | mediaCellSize | mediaPointSize | mediaFit | pageTab | pageToolbar | pageHeaderSlot | pageBodySlot
  | surfaceCellSize | surfacePointSize | surfaceBackground | surfaceInputPolicy | textBoxTitle | keyHint
  | textBoxBusy | submitMode | textBoxActions | treePresentation | treeFilter | button | treeActions
  | semanticMenuItemRole | listItemMediaSide | mediaSpec | contentTone | contentEmphasis | titlePosition
  | buttonRole | toggleRole | listPageBehavior | listRowLayout | contentFont | uiMessage | messageHeader

section
variable {N : Type}

def text : Shape N := .plain .text

def bool : Shape N := .plain .bool

def number : Shape N := .plain .canonical

def u16 : Shape N := .plain (.unsigned 16)

def u32 : Shape N := .plain (.unsigned 32)

def u64 : Shape N := .plain (.unsigned 64)

def named (n : N) : Shape N := .plain (.ref n)

def many (n : N) : Shape N := .seq (.ref n)

end

/-! ## Predicates and defaults -/

def isDefaultRole : Skip := .isVariant "default"

def isDefaultButtonRole : Skip := .isVariant "default"

def isDefaultFooterActionRole : Skip := .isVariant "default"

def isDefaultToggleRole : Skip := .isVariant "completion"

def isDefaultListItemTone : Skip := .isVariant "default"

def isDefaultListItemEmphasis : Skip := .isVariant "regular"

def isDefaultValueTone : Skip := .isVariant "muted"

def isDefaultMediaSide : Skip := .isVariant "leading"

def isDefaultListItemActionRole : Skip := .isVariant "default"

def isDefaultPageBehavior : Skip := .isVariant "selection"

def isDefaultRowLayout : Skip := .isVariant "inline"

def isDefaultContentTone : Skip := .isVariant "default"

def isDefaultContentEmphasis : Skip := .isVariant "regular"

def isDefaultContentLineTone : Skip := .isVariant "default"

def isDefaultContentFont : Skip := .isVariant "body"

def isZeroU16 : Skip := .isInt 0

def isDefaultPageOverlap : Skip := .isInt 1

/-- `LineChartAxis::is_empty`. -/
def lineChartAxisIsEmpty : Skip := .isNones 2

/-- `FooterActions::is_empty`. -/
def footerActionsIsEmpty : Skip := .test fun
  | .record [.seq [],.none] => true
  | .record [.seq [],.some (.text status)] => status = ""
  | _ => false

def lineChartAxisDefault : Value := .record [.none,.none]

def footerActionsDefault : Value := .record [.seq [],.none]

def defaultValueTone : Value := .variant "muted" []

def defaultPageOverlap : Value := .int 1

def defaultMinRows : Value := .int 3

def defaultMaxRows : Value := .int 10

def textBoxActionsDefault : Value := .record [.none,.none]

def treeActionsDefault : Value := .record [.text "tree-select",.text "tree-open",.text "tree-parent",.none]

/-- `MarkdownEditorActions::editable`. -/
def markdownEditorActionsDefault : Value := .record [.some (.text "replace-range"),.some (.text "set-selection"),
  .some (.text "save"),.some (.text "undo"),.some (.text "redo"),.some (.text "set-presentation"),.none]

/-- `UiRendererState::terminal`. -/
def uiRendererStateDefault : Value := .record [.bool false,.bool true]

/-! ## Menus, charts and content -/

def semanticMenuItem : Layout UiType := .struct <|
  .required "id" text <| .required "label" text <| .required "action" text <| .optional "hint" .text <|
  .defaulted "disabled" bool (.bool false) <|
  .unless "role" (.ref .semanticMenuItemRole) isDefaultRole (.variant "default" []) <| .nil

def semanticMenu : Layout UiType := .struct <|
  .required "label" text <| .defaulted "presentation" (named .semanticMenuPresentation) (.variant "popup" []) <|
  .defaulted "anchor" (named .semanticMenuAnchor) (.variant "control" []) <|
  .required "items" (many .semanticMenuItem) <| .optional "selectedId" .text <| .optional "dismiss" .text <| .nil

def barChartBar : Layout UiType := .struct <|
  .required "label" text <| .required "value" number <| .optional "valueCaption" .text <|
  .defaulted "emphasis" (named .barChartEmphasis) (.variant "default" []) <| .nil

def barChart : Layout UiType := .struct <|
  .required "id" text <| .required "bars" (many .barChartBar) <| .required "accessibilityText" text <|
  .optional "activate" .text <| .nil

def gauge : Layout UiType := .struct <|
  .required "id" text <| .required "ratio" number <| .required "label" text <| .optional "caption" .text <|
  .required "accessibilityText" text <| .optional "activate" .text <| .nil

def lineChartPoint : Layout UiType := .struct <|
  .required "x" number <| .required "y" number <| .nil

def lineChartSeries : Layout UiType := .struct <|
  .required "name" text <| .required "points" (many .lineChartPoint) <| .nil

def lineChartBounds : Layout UiType := .struct <|
  .required "min" number <| .required "max" number <| .nil

def lineChartAxis : Layout UiType := .struct <|
  .optional "bounds" (.ref .lineChartBounds) <| .optional "label" .text <| .nil

def lineChart : Layout UiType := .struct <|
  .required "id" text <| .required "series" (many .lineChartSeries) <|
  .unless "xAxis" (.ref .lineChartAxis) lineChartAxisIsEmpty lineChartAxisDefault <|
  .unless "yAxis" (.ref .lineChartAxis) lineChartAxisIsEmpty lineChartAxisDefault <|
  .required "accessibilityText" text <| .optional "activate" .text <| .nil

def sparkline : Layout UiType := .struct <|
  .required "id" text <| .required "series" (.seq .canonical) <| .optional "min" .canonical <|
  .optional "max" .canonical <| .optional "caption" .text <| .optional "unit" .text <|
  .required "accessibilityText" text <| .optional "activate" .text <| .nil

def contentRun : Layout UiType := .struct <|
  .required "text" text <| .unless "tone" (.ref .contentTone) isDefaultContentTone (.variant "default" []) <|
  .unless "emphasis" (.ref .contentEmphasis) isDefaultContentEmphasis (.variant "regular" []) <| .nil

def contentLine : Layout UiType := .struct <|
  .required "id" text <| .required "runs" (many .contentRun) <|
  .unless "tone" (.ref .contentLineTone) isDefaultContentLineTone (.variant "default" []) <| .nil

def contentSelection : Layout UiType := .struct <|
  .required "anchorId" text <| .required "headId" text <| .nil

def content : Layout UiType := .struct <|
  .required "id" text <| .required "label" text <| .required "lines" (many .contentLine) <|
  .defaulted "wrap" bool (.bool false) <|
  .unless "font" (.ref .contentFont) isDefaultContentFont (.variant "body" []) <| .textOrEmpty "emptyMessage" <|
  .optional "selection" (.ref .contentSelection) <| .optional "select" .text <|
  .optional "contextMenu" (.ref .semanticMenu) <| .nil

/-! ## Media and surfaces -/

def mediaSource : Layout UiType := .tagged "kind" <|
  .cons "path" (.required "path" text <| .nil) <|
  .cons "inline" (.required "mediaType" text <| .required "base64" text <| .nil) <|
  .cons "blob" (.required "sha256" text <| .required "mediaType" text <| .required "byteLength" u64 <| .nil) <| .nil

def mediaPixelSize : Layout UiType := .struct <|
  .required "w" u32 <| .required "h" u32 <| .nil

def mediaCellSize : Layout UiType := .struct <|
  .optional "w" (.unsigned 16) <| .optional "h" (.unsigned 16) <| .nil

def mediaPointSize : Layout UiType := .struct <|
  .optional "w" (.unsigned 32) <| .optional "h" (.unsigned 32) <| .nil

def mediaSpec : Layout UiType := .struct <|
  .required "source" (named .mediaSource) <| .required "intrinsic" (named .mediaPixelSize) <|
  .optional "cells" (.ref .mediaCellSize) <| .optional "points" (.ref .mediaPointSize) <|
  .defaulted "fit" (named .mediaFit) (.variant "contain" []) <| .required "alt" text <| .optional "activate" .text <|
  .nil

def surfaceReference : Layout UiType := .struct <|
  .required "sessionId" text <| .required "streamId" text <| .nil

def surfaceCellSize : Layout UiType := .struct <|
  .optional "w" (.unsigned 16) <| .optional "h" (.unsigned 16) <| .nil

def surfacePointSize : Layout UiType := .struct <|
  .optional "w" (.unsigned 32) <| .optional "h" (.unsigned 32) <| .nil

def surfaceBackground : Layout UiType := .tagged "kind" <|
  .cons "transparent" .nil <| .cons "solid" (.required "color" text <| .nil) <| .nil

def surfaceSpec : Layout UiType := .struct <|
  .required "reference" (named .surfaceReference) <| .optional "cells" (.ref .surfaceCellSize) <|
  .optional "points" (.ref .surfacePointSize) <|
  .defaulted "background" (named .surfaceBackground) (.variant "transparent" []) <|
  .defaulted "inputPolicy" (named .surfaceInputPolicy) (.variant "none" []) <| .nil

def button : Layout UiType := .struct <|
  .required "id" text <| .required "label" text <| .required "action" text <|
  .unless "role" (.ref .buttonRole) isDefaultButtonRole (.variant "default" []) <| .nil

def canvasSurface : Layout UiType := .struct <|
  .required "id" text <| .flatten surfaceSpec <| .nil

def canvasControl : Layout UiType := .tagged "type" <|
  .cons "button" (.flatten button .nil) <| .nil

def canvasPage : Layout UiType := .struct <|
  .required "title" text <| .required "surface" (named .canvasSurface) <|
  .defaulted "controls" (many .canvasControl) (.seq []) <| .nil

/-! ## Lists and pages -/

def footerAction : Layout UiType := .struct <|
  .required "id" text <| .required "label" text <| .required "action" text <| .optional "accelerator" .text <|
  .unless "role" (.ref .footerActionRole) isDefaultFooterActionRole (.variant "default" []) <|
  .unless "disabled" .bool .isFalse (.bool false) <| .unless "busy" .bool .isFalse (.bool false) <| .nil

def footerActions : Layout UiType := .struct <|
  .defaulted "actions" (many .footerAction) (.seq []) <| .optional "status" .text <| .nil

def toggle : Layout UiType := .struct <|
  .required "id" text <| .required "label" text <| .required "value" bool <| .required "setValue" text <|
  .unless "role" (.ref .toggleRole) isDefaultToggleRole (.variant "completion" []) <| .nil

def checkmark : Layout UiType := .struct <|
  .required "id" text <| .required "label" text <| .required "value" bool <| .required "setValue" text <| .nil

def listItemTextRun : Layout UiType := .struct <|
  .required "text" text <| .optional "tone" (.ref .listItemTone) <| .optional "emphasis" (.ref .listItemEmphasis) <|
  .nil

def statusSymbol : Layout UiType := .struct <|
  .required "symbol" text <| .required "label" text <|
  .unless "tone" (.ref .listItemTone) isDefaultListItemTone (.variant "default" []) <|
  .unless "emphasis" (.ref .listItemEmphasis) isDefaultListItemEmphasis (.variant "regular" []) <|
  .defaulted "preserveToneWhenSelected" bool (.bool false) <| .nil

def badge : Layout UiType := .struct <|
  .required "text" text <| .unless "tone" (.ref .listItemTone) isDefaultListItemTone (.variant "default" []) <| .nil

def listItemSlot : Layout UiType := .tagged "type" <|
  .cons "toggle" (.flatten toggle .nil) <| .cons "status" (.flatten statusSymbol .nil) <|
  .cons "badge" (.flatten badge .nil) <| .cons "sparkline" (.flatten sparkline .nil) <|
  .cons "gauge" (.flatten gauge .nil) <| .cons "disclosure" .nil <| .cons "checkmark" (.flatten checkmark .nil) <|
  .nil

def listRowLayout : Layout UiType := .tagged "type" <|
  .cons "inline" .nil <| .cons "stacked" .nil <| .cons "auto" (.required "stackBelowWidth" u16 <| .nil) <| .nil

def listItemBand : Layout UiType := .tagged "type" <|
  .cons "gauge" (.flatten gauge .nil) <| .cons "sparkline" (.flatten sparkline .nil) <|
  .cons "text" (.required "text" text <| .unless "tone" (.ref .listItemTone) isDefaultListItemTone (.variant "default" []) <| .nil) <|
  .cons "divider" .nil <| .nil

def listItemMedia : Layout UiType := .struct <|
  .unless "side" (.ref .listItemMediaSide) isDefaultMediaSide (.variant "leading" []) <| .required "width" u16 <|
  .optional "glyph" .text <| .unless "tone" (.ref .listItemTone) isDefaultListItemTone (.variant "default" []) <|
  .optional "spec" (.ref .mediaSpec) <| .nil

def listItem : Layout UiType := .struct <|
  .required "id" text <| .required "label" text <| .items "labelRuns" (.ref .listItemTextRun) <|
  .unless "labelTone" (.ref .listItemTone) isDefaultListItemTone (.variant "default" []) <|
  .unless "emphasis" (.ref .listItemEmphasis) isDefaultListItemEmphasis (.variant "regular" []) <|
  .optional "detail" .text <| .items "detailRuns" (.ref .listItemTextRun) <| .optional "value" .text <|
  .items "valueRuns" (.ref .listItemTextRun) <|
  .unless "valueTone" (.ref .listItemTone) isDefaultValueTone defaultValueTone <|
  .optional "valueMinWidth" (.unsigned 16) <| .defaulted "done" bool (.bool false) <|
  .defaulted "busy" bool (.bool false) <| .optional "leading" (.ref .listItemSlot) <|
  .optional "trailing" (.ref .listItemSlot) <| .optional "accessory" (.ref .listItemSlot) <|
  .optional "top" (.ref .listItemBand) <| .optional "bottom" (.ref .listItemBand) <|
  .optional "media" (.ref .listItemMedia) <| .unless "divider" .bool .isFalse (.bool false) <|
  .optional "delete" .text <| .optional "activate" .text <|
  .unless "actionRole" (.ref .listItemActionRole) isDefaultListItemActionRole (.variant "default" []) <| .nil

def list : Layout UiType := .struct <|
  .required "id" text <| .required "items" (many .listItem) <| .textOrEmpty "emptyMessage" <|
  .optional "selectedId" .text <| .optional "select" .text <|
  .unless "scrollPadding" (.unsigned 16) isZeroU16 (.int 0) <|
  .unless "pageOverlap" (.unsigned 16) isDefaultPageOverlap defaultPageOverlap <|
  .unless "pageBehavior" (.ref .listPageBehavior) isDefaultPageBehavior (.variant "selection" []) <|
  .defaulted "spacePagesDown" bool (.bool false) <|
  .unless "rowLayout" (.ref .listRowLayout) isDefaultRowLayout (.variant "inline" []) <|
  .optional "contextMenu" (.ref .semanticMenu) <| .nil

def input : Layout UiType := .struct <|
  .required "id" text <| .required "label" text <| .textOrEmpty "value" <| .textOrEmpty "placeholder" <|
  .optional "setValue" .text <| .optional "submit" .text <| .nil

def pageHeaderSlot : Layout UiType := .tagged "type" <|
  .cons "input" (.flatten input .nil) <| .nil

def pageBodySlot : Layout UiType := .tagged "type" <|
  .cons "list" (.flatten list .nil) <| .cons "content" (.flatten content .nil) <|
  .cons "sparkline" (.flatten sparkline .nil) <| .cons "barChart" (.flatten barChart .nil) <|
  .cons "lineChart" (.flatten lineChart .nil) <| .cons "gauge" (.flatten gauge .nil) <| .nil

def pageTab : Layout UiType := .struct <|
  .required "id" text <| .required "label" text <| .required "action" text <|
  .defaulted "selected" bool (.bool false) <| .nil

def pageToolbar : Layout UiType := .struct <|
  .required "primary" (named .footerAction) <| .optional "menu" (.ref .semanticMenu) <| .nil

def page : Layout UiType := .struct <|
  .required "title" text <| .items "tabs" (.ref .pageTab) <| .optional "toolbar" (.ref .pageToolbar) <|
  .optional "back" .text <| .optional "header" (.ref .pageHeaderSlot) <| .required "body" (named .pageBodySlot) <|
  .unless "footer" (.ref .footerActions) footerActionsIsEmpty footerActionsDefault <| .nil

/-! ## Text boxes, trees and editors -/

def keyHint : Layout UiType := .struct <|
  .required "key" text <| .required "label" text <| .nil

def textBoxTitle : Layout UiType := .struct <|
  .required "text" text <| .required "position" (named .titlePosition) <| .nil

def textBoxBusy : Layout UiType := .struct <|
  .required "label" text <| .defaulted "elapsedMs" u64 (.int 0) <| .textOrEmpty "rightMeta" <| .nil

def textBoxActions : Layout UiType := .struct <|
  .optional "setText" .text <| .optional "submit" .text <| .nil

def textBoxSpec : Layout UiType := .struct <|
  .defaulted "text" text (.text "") <| .textOrEmpty "placeholder" <| .textOrEmpty "prompt" <|
  .items "titles" (.ref .textBoxTitle) <| .items "hints" (.ref .keyHint) <| .optional "busy" (.ref .textBoxBusy) <|
  .defaulted "submitMode" (named .submitMode) (.variant "enter" []) <| .defaulted "minRows" u16 defaultMinRows <|
  .defaulted "maxRows" u16 defaultMaxRows <| .defaulted "actions" (named .textBoxActions) textBoxActionsDefault <|
  .nil

def treeItem : Layout UiType := .struct <|
  .required "id" text <| .required "label" text <| .required "kind" (named .treeItemKind) <|
  .optional "detail" .text <| .defaulted "hidden" bool (.bool false) <| .defaulted "symlink" bool (.bool false) <|
  .defaulted "childState" (named .treeChildState) (.variant "loaded" []) <|
  .defaulted "expanded" bool (.bool false) <| .items "children" (.ref .treeItem) <| .nil

def treeFilter : Layout UiType := .struct <|
  .required "id" text <| .required "label" text <| .defaulted "value" text (.text "") <| .textOrEmpty "placeholder" <|
  .required "setValue" text <| .nil

def treeActions : Layout UiType := .struct <|
  .required "select" text <| .required "open" text <| .required "parent" text <| .optional "setExpanded" .text <| .nil

def tree : Layout UiType := .struct <|
  .required "label" text <| .required "location" text <|
  .defaulted "presentation" (named .treePresentation) (.variant "drillDown" []) <|
  .optional "filter" (.ref .treeFilter) <| .defaulted "items" (many .treeItem) (.seq []) <|
  .optional "selectedId" .text <| .optional "emptyMessage" .text <| .optional "primaryAction" (.ref .button) <|
  .optional "contextMenu" (.ref .semanticMenu) <| .defaulted "actions" (named .treeActions) treeActionsDefault <|
  .unless "footer" (.ref .footerActions) footerActionsIsEmpty footerActionsDefault <| .nil

def markdownCommandHint : Layout UiType := .struct <|
  .required "text" text <| .required "visibility" (named .markdownCommandHintVisibility) <| .nil

def textPosition : Layout UiType := .struct <|
  .required "line" u32 <| .required "utf16Column" u32 <| .nil

def textRange : Layout UiType := .struct <|
  .required "start" (named .textPosition) <| .required "end" (named .textPosition) <| .nil

def textSelection : Layout UiType := .struct <|
  .required "anchor" (named .textPosition) <| .required "head" (named .textPosition) <| .nil

def textEdit : Layout UiType := .struct <|
  .required "range" (named .textRange) <| .required "text" text <| .nil

def markdownEditorActions : Layout UiType := .struct <|
  .optional "replaceRange" .text <| .optional "setSelection" .text <| .optional "save" .text <|
  .optional "undo" .text <| .optional "redo" .text <| .optional "setPresentation" .text <|
  .optional "openMenu" .text <| .nil

def markdownEditorSpec : Layout UiType := .struct <|
  .required "text" text <| .required "selection" (named .textSelection) <|
  .defaulted "presentation" (named .markdownPresentation) (.variant "source" []) <|
  .defaulted "readOnly" bool (.bool false) <| .defaulted "dirty" bool (.bool false) <| .textOrEmpty "placeholder" <|
  .optional "commandHint" (.ref .markdownCommandHint) <| .optional "title" .text <| .optional "back" .text <|
  .defaulted "actions" (named .markdownEditorActions) markdownEditorActionsDefault <|
  .optional "insertMenu" (.ref .semanticMenu) <| .optional "contextMenu" (.ref .semanticMenu) <|
  .unless "footer" (.ref .footerActions) footerActionsIsEmpty footerActionsDefault <| .nil

/-! ## Messages -/

def appMetadata : Layout UiType := .struct <|
  .required "id" text <| .required "name" text <| .required "version" text <| .optional "description" .text <| .nil

def uiParticipant : Layout UiType := .struct <|
  .required "id" text <| .defaulted "kind" (named .uiParticipantKind) (.variant "human" []) <|
  .optional "sourceSessionId" .text <| .optional "displayName" .text <| .optional "color" .text <|
  .items "grants" .text <| .nil

def uiRendererMetadata : Layout UiType := .struct <|
  .required "id" text <| .required "kind" text <| .items "capabilities" .text <| .nil

def uiRendererState : Layout UiType := .struct <|
  .required "rendererVisible" bool <| .required "terminalVisible" bool <| .nil

def uiComponent : Layout UiType := .tagged "type" <|
  .cons "canvasPage" (.flatten canvasPage .nil) <| .cons "markdownEditor" (.flatten markdownEditorSpec .nil) <|
  .cons "media" (.flatten mediaSpec .nil) <| .cons "menu" (.flatten semanticMenu .nil) <|
  .cons "page" (.flatten page .nil) <| .cons "surface" (.flatten surfaceSpec .nil) <|
  .cons "textBox" (.flatten textBoxSpec .nil) <| .cons "tree" (.flatten tree .nil) <| .nil

def uiNode : Layout UiType := .struct <|
  .required "id" text <| .flatten uiComponent <| .nil

def uiAttach : Layout UiType := .struct <|
  .required "protocol" text <| .required "minProtocolVersion" u32 <| .required "maxProtocolVersion" u32 <|
  .required "participantToken" text <| .required "clientId" text <|
  .required "renderer" (named .uiRendererMetadata) <| .required "viewId" text <|
  .optional "expectedAppInstanceId" .text <| .optional "lastSeenRevision" (.unsigned 64) <|
  .defaulted "state" (named .uiRendererState) uiRendererStateDefault <| .nil

def uiAttached : Layout UiType := .struct <|
  .required "protocol" text <| .required "protocolVersion" u32 <| .required "minProtocolVersion" u32 <|
  .required "maxProtocolVersion" u32 <| .required "app" (named .appMetadata) <| .required "appInstanceId" text <|
  .required "participantId" text <| .required "clientId" text <| .required "rendererId" text <|
  .required "viewId" text <| .required "resumed" bool <| .optional "currentRevision" (.unsigned 64) <| .nil

def uiSnapshot : Layout UiType := .struct <|
  .required "protocol" text <| .required "protocolVersion" u32 <| .required "appInstanceId" text <|
  .required "clientId" text <| .required "viewId" text <| .required "revision" u64 <|
  .required "root" (named .uiNode) <| .nil

def uiDeltaOperation : Layout UiType := .tagged "op" <|
  .cons "replaceRoot" (.required "root" (named .uiNode) <| .nil) <|
  .cons "markdownReplaceRange" (.required "nodeId" text <| .required "edit" (named .textEdit) <| .nil) <|
  .cons "markdownSetSelection" (.required "nodeId" text <| .required "selection" (named .textSelection) <| .nil) <|
  .cons "markdownSetPresentation" (.required "nodeId" text <| .required "presentation" (named .markdownPresentation) <| .nil) <|
  .cons "markdownSetDirty" (.required "nodeId" text <| .required "dirty" bool <| .nil) <|
  .cons "markdownSetReadOnly" (.required "nodeId" text <| .required "readOnly" bool <| .nil) <|
  .cons "markdownSetTitle" (.required "nodeId" text <| .required "title" (.option .text) <| .nil) <|
  .cons "markdownSetPlaceholder" (.required "nodeId" text <| .required "placeholder" text <| .nil) <|
  .cons "markdownSetCommandHint" (.required "nodeId" text <| .required "commandHint" (.option (.ref .markdownCommandHint)) <| .nil) <|
  .cons "markdownSetActions" (.required "nodeId" text <| .required "actions" (named .markdownEditorActions) <| .nil) <|
  .cons "markdownSetMenus" (.required "nodeId" text <| .optional "insertMenu" (.ref .semanticMenu) <|
    .optional "contextMenu" (.ref .semanticMenu) <| .nil) <|
  .cons "menuSetSelection" (.required "nodeId" text <| .required "selectedId" (.option .text) <| .nil) <|
  .cons "mediaSetSource" (.required "nodeId" text <| .required "source" (named .mediaSource) <|
    .required "intrinsic" (named .mediaPixelSize) <| .nil) <|
  .cons "surfaceSetReference" (.required "nodeId" text <| .required "reference" (named .surfaceReference) <| .nil) <|
  .cons "toggleSetValue" (.required "nodeId" text <| .required "value" bool <| .nil) <|
  .cons "checkmarkSetValue" (.required "nodeId" text <| .required "value" bool <| .nil) <|
  .cons "sparklineSetData" (.required "nodeId" text <| .required "series" (.seq .canonical) <| .required "min" (.option .canonical) <|
    .required "max" (.option .canonical) <| .required "caption" (.option .text) <| .required "unit" (.option .text) <|
    .required "accessibilityText" text <| .nil) <|
  .cons "barChartSetData" (.required "nodeId" text <| .required "bars" (many .barChartBar) <| .required "accessibilityText" text <| .nil) <|
  .cons "lineChartSetData" (.required "nodeId" text <| .required "series" (many .lineChartSeries) <|
    .required "xAxis" (named .lineChartAxis) <| .required "yAxis" (named .lineChartAxis) <|
    .required "accessibilityText" text <| .nil) <|
  .cons "gaugeSetData" (.required "nodeId" text <| .required "ratio" number <| .required "label" text <|
    .required "caption" (.option .text) <| .required "accessibilityText" text <| .nil) <|
  .cons "footerSetActions" (.required "nodeId" text <| .required "actions" (many .footerAction) <| .optional "status" .text <| .nil) <|
  .cons "inputSetValue" (.required "nodeId" text <| .required "value" text <| .nil) <|
  .cons "listInsertItem" (.required "listId" text <| .required "index" u64 <| .required "item" (named .listItem) <| .nil) <|
  .cons "listSetSelection" (.required "listId" text <| .required "selectedId" (.option .text) <| .nil) <|
  .cons "listRemoveItem" (.required "listId" text <| .required "itemId" text <| .nil) <|
  .cons "contentSetSelection" (.required "contentId" text <| .optional "selection" (.ref .contentSelection) <| .nil) <|
  .cons "contentSpliceLines" (.required "contentId" text <| .required "index" u64 <| .required "deleteCount" u64 <|
    .required "lines" (many .contentLine) <| .nil) <|
  .cons "treeSetSelection" (.required "nodeId" text <| .required "selectedId" (.option .text) <| .nil) <|
  .cons "treeSetFilter" (.required "filterId" text <| .required "value" text <| .nil) <|
  .cons "treeSetLocation" (.required "nodeId" text <| .required "location" text <| .nil) <|
  .cons "treeSpliceChildren" (.required "nodeId" text <| .optional "parentId" .text <| .required "index" u64 <| .required "deleteCount" u64 <|
    .required "items" (many .treeItem) <| .nil) <|
  .cons "treeSetChildState" (.required "nodeId" text <| .required "itemId" text <| .required "childState" (named .treeChildState) <| .nil) <|
  .cons "treeSetExpanded" (.required "nodeId" text <| .required "itemId" text <| .required "expanded" bool <| .nil) <|
  .nil

def uiDelta : Layout UiType := .struct <|
  .required "protocol" text <| .required "protocolVersion" u32 <| .required "appInstanceId" text <|
  .required "clientId" text <| .required "viewId" text <| .required "baseRevision" u64 <| .required "revision" u64 <|
  .required "operations" (many .uiDeltaOperation) <| .nil

def uiAction : Layout UiType := .struct <|
  .required "nodeId" text <| .required "action" text <| .required "kind" (named .uiEventKind) <|
  .required "value" (named .uiEventValue) <| .nil

def uiEvent : Layout UiType := .struct <|
  .required "protocol" text <| .required "protocolVersion" u32 <| .required "appInstanceId" text <|
  .required "participantId" text <| .required "clientId" text <| .required "rendererId" text <|
  .required "viewId" text <| .required "eventId" text <| .required "baseRevision" u64 <| .flatten uiAction <| .nil

def uiAck : Layout UiType := .struct <|
  .required "protocol" text <| .required "protocolVersion" u32 <| .required "appInstanceId" text <|
  .required "clientId" text <| .required "rendererId" text <| .required "viewId" text <| .required "eventId" text <|
  .required "status" (named .uiAckStatus) <| .required "revision" u64 <| .optional "message" .text <| .nil

def uiLifecycle : Layout UiType := .struct <|
  .required "protocol" text <| .required "protocolVersion" u32 <| .required "appInstanceId" text <|
  .required "clientId" text <| .required "rendererId" text <| .required "viewId" text <|
  .required "state" (named .uiRendererState) <| .nil

def uiRequestSnapshot : Layout UiType := .struct <|
  .required "protocol" text <| .required "protocolVersion" u32 <| .required "appInstanceId" text <|
  .required "clientId" text <| .required "rendererId" text <| .required "viewId" text <| .nil

def uiPresenceMember : Layout UiType := .struct <|
  .required "participant" (named .uiParticipant) <| .required "clientId" text <|
  .required "renderer" (named .uiRendererMetadata) <| .required "state" (named .uiRendererState) <| .nil

def uiPresence : Layout UiType := .struct <|
  .required "protocol" text <| .required "protocolVersion" u32 <| .required "appInstanceId" text <|
  .required "viewId" text <| .required "members" (many .uiPresenceMember) <| .nil

def uiErrorMessage : Layout UiType := .struct <|
  .required "protocol" text <| .required "protocolVersion" u32 <| .required "code" text <| .required "message" text <|
  .nil

def uiMessage : Layout UiType := .tagged "type" <|
  .cons "attach" (.flatten uiAttach .nil) <| .cons "attached" (.flatten uiAttached .nil) <|
  .cons "snapshot" (.flatten uiSnapshot .nil) <| .cons "delta" (.flatten uiDelta .nil) <|
  .cons "event" (.flatten uiEvent .nil) <| .cons "ack" (.flatten uiAck .nil) <|
  .cons "lifecycle" (.flatten uiLifecycle .nil) <| .cons "requestSnapshot" (.flatten uiRequestSnapshot .nil) <|
  .cons "presence" (.flatten uiPresence .nil) <| .cons "error" (.flatten uiErrorMessage .nil) <| .nil

def messageHeader : Layout UiType := .struct <|
  .required "type" text <| .required "protocol" text <| .defaulted "protocolVersion" (.option (.unsigned 32)) .none <| .nil

/-! ## The table -/

def defs : UiType → Def UiType
  | .uiRendererMetadata => .object uiRendererMetadata
  | .uiRendererState => .object uiRendererState
  | .appMetadata => .object appMetadata
  | .uiNode => .object uiNode
  | .uiDeltaOperation => .object uiDeltaOperation
  | .uiAckStatus => .enumeration ["pending","applied","rejected","stale"]
  | .uiPresenceMember => .object uiPresenceMember
  | .textEdit => .object textEdit
  | .textSelection => .object textSelection
  | .markdownPresentation => .enumeration ["source","preview","split"]
  | .markdownCommandHint => .object markdownCommandHint
  | .markdownEditorActions => .object markdownEditorActions
  | .semanticMenu => .object semanticMenu
  | .mediaSource => .object mediaSource
  | .mediaPixelSize => .object mediaPixelSize
  | .surfaceReference => .object surfaceReference
  | .barChartBar => .object barChartBar
  | .lineChartSeries => .object lineChartSeries
  | .lineChartAxis => .object lineChartAxis
  | .footerAction => .object footerAction
  | .listItem => .object listItem
  | .contentSelection => .object contentSelection
  | .contentLine => .object contentLine
  | .treeItem => .object treeItem
  | .treeChildState => .enumeration ["loaded","unloaded","loading"]
  | .uiEventKind => .enumeration ["activate","select","change","submit","cancel","command"]
  | .uiEventValue => .adjacent "type" "value" [
      ("none",none),("bool",some bool),("index",some u64),("integer",some (.plain (.signed 64))),
      ("number",some (.plain .float)),("text",some text),("textList",some (.seq .text)),
      ("textEdit",some (named .textEdit)),("textSelection",some (named .textSelection))]
  | .uiParticipant => .object uiParticipant
  | .textRange => .object textRange
  | .textPosition => .object textPosition
  | .markdownCommandHintVisibility => .enumeration ["cursorOnEmptyLineOutsideCodeFence"]
  | .semanticMenuPresentation => .enumeration ["popup","context"]
  | .semanticMenuAnchor => .enumeration ["control","caret","pointer"]
  | .semanticMenuItem => .object semanticMenuItem
  | .barChartEmphasis => .enumeration ["default","accent","danger"]
  | .lineChartPoint => .object lineChartPoint
  | .lineChartBounds => .object lineChartBounds
  | .footerActionRole => .enumeration ["default","danger"]
  | .listItemTextRun => .object listItemTextRun
  | .listItemTone => .enumeration ["default","muted","accent","info","success","warning","danger"]
  | .listItemEmphasis => .enumeration ["regular","strong"]
  | .listItemSlot => .object listItemSlot
  | .listItemBand => .object listItemBand
  | .listItemMedia => .object listItemMedia
  | .listItemActionRole => .enumeration ["default","destructive"]
  | .contentRun => .object contentRun
  | .contentLineTone => .enumeration ["default","muted","header","added","removed"]
  | .treeItemKind => .enumeration ["parent","directory","file"]
  | .uiParticipantKind => .enumeration ["human","agent","service"]
  | .canvasSurface => .object canvasSurface
  | .canvasControl => .object canvasControl
  | .footerActions => .object footerActions
  | .mediaCellSize => .object mediaCellSize
  | .mediaPointSize => .object mediaPointSize
  | .mediaFit => .enumeration ["contain","cover","fill"]
  | .pageTab => .object pageTab
  | .pageToolbar => .object pageToolbar
  | .pageHeaderSlot => .object pageHeaderSlot
  | .pageBodySlot => .object pageBodySlot
  | .surfaceCellSize => .object surfaceCellSize
  | .surfacePointSize => .object surfacePointSize
  | .surfaceBackground => .object surfaceBackground
  | .surfaceInputPolicy => .enumeration ["none","pointer","pointerAndKeyboard"]
  | .textBoxTitle => .object textBoxTitle
  | .keyHint => .object keyHint
  | .textBoxBusy => .object textBoxBusy
  | .submitMode => .enumeration ["enter","never"]
  | .textBoxActions => .object textBoxActions
  | .treePresentation => .enumeration ["drillDown","outline"]
  | .treeFilter => .object treeFilter
  | .button => .object button
  | .treeActions => .object treeActions
  | .semanticMenuItemRole => .enumeration ["default","danger"]
  | .listItemMediaSide => .enumeration ["leading","trailing"]
  | .mediaSpec => .object mediaSpec
  | .contentTone => .enumeration ["default","muted","accent","info","success","warning","danger"]
  | .contentEmphasis => .enumeration ["regular","strong","italic"]
  | .titlePosition => .enumeration ["topLeft","topRight","bottomLeft","bottomRight"]
  | .buttonRole => .enumeration ["default","primary","destructive"]
  | .toggleRole => .enumeration ["completion","setting"]
  | .listPageBehavior => .enumeration ["selection","scroll"]
  | .listRowLayout => .object listRowLayout
  | .contentFont => .enumeration ["body","monospace"]
  | .uiMessage => .object uiMessage
  | .messageHeader => .object messageHeader

theorem defs_distinct (n : UiType) : (defs n).distinct = true := by
  cases n <;> rfl

end Unpeel.AppKit.UiFrames
